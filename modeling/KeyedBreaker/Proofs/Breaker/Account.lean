import KeyedBreaker.Proofs.Breaker.Outcome
import KeyedBreaker.Proofs.Breaker.Told
import KeyedBreaker.Proofs.Breaker.Weathered
import KeyedBreaker.Proofs.Record.Dated

namespace KeyedBreaker

open Act

namespace Breaker

/-- The breaker's own arithmetic has no answer at a time: it cannot tell when a new window ends, or which
transition a record owes and when the new status ends. -/
inductive Stuck (b : Breaker) (t : Instant) : Failure → Prop
  | window {e : TimeError} : t.addSeconds b.config.samplingDuration = .error e → Stuck b t (.time e)
  | change {r : Record} {f : Failure} : b.change t r = .error f → Stuck b t f

/-- Why a call comes to nothing before its function. -/
inductive Hindered (b : Breaker) (t : Instant) (f : Failure) : Prop
  | store : f.isA .store = true → Hindered b t f
  | stuck : b.Stuck t f → Hindered b t f
  | aborted : f.isOrdinary = false → Hindered b t f

/-- What listeners are to be told of a call, by what its function came to, if it started, and by what the
call answers then. -/
inductive Verdict (b : Breaker) (key : String) (t : Instant) (elapsed : Binary64) :
    Option (Except Failure Json) → Except Failure Json → Occurrence → Prop
  | rejected {r : Record} {f : Failure} : r.Rejects key f →
      Verdict b key t elapsed none (.error f) (.rejected key r.status)
  /-- The window of a closed circuit has ended, and it cannot be told when a new one ends. -/
  | unrolled {e : TimeError} : t.addSeconds b.config.samplingDuration = .error e →
      Verdict b key t elapsed none (.error (.time e)) (.failed key (.time e) elapsed)
  | returned {v : Json} : Verdict b key t elapsed (some (.ok v)) (.ok v) (.succeeded key elapsed)
  | raised {f : Failure} {counted : Bool} : f.isOrdinary = true → b.config.counts f = .ok counted →
      Verdict b key t elapsed (some (.error f)) (.error f) (.failed key f elapsed)
  /-- The classifier fails. -/
  | unjudged {f g : Failure} : f.isOrdinary = true → b.config.counts f = .error g →
      g.isOrdinary = true → Verdict b key t elapsed (some (.error f)) (.error g) (.failed key g elapsed)

def unsavedFailure (key : String) (due : Except Failure Json) (f : Failure) : Failure :=
  match due with
  | .ok _ => f
  | .error e => bothFailed key e f

/-- How a call ends that is due to answer something, and of which listeners are to be told something. -/
inductive Closes (b : Breaker) (key : String) (t : Instant) (due : Except Failure Json)
    (o : Occurrence) : Except Failure Json → Option Occurrence → Prop
  | told : Closes b key t due o due (some o)
  | unsaved {f : Failure} : f.isA .store = true →
      Closes b key t due o (.error (unsavedFailure key due f)) none
  | stuck {f : Failure} : b.Stuck t f → Closes b key t due o (.error f) none
  | aborted {f : Failure} : f.isOrdinary = false → Closes b key t due o (.error f) none

/-- What its function came to, if it started, what the call answers, and what listeners are told. -/
inductive Accounts (b : Breaker) (key : String) (t : Instant) (elapsed : Binary64) :
    Option (Except Failure Json) → Except Failure Json → Option Occurrence → Prop
  | closed {function? : Option (Except Failure Json)} {due answer : Except Failure Json}
      {o : Occurrence} {told? : Option Occurrence} : b.Verdict key t elapsed function? due o →
      b.Closes key t due o answer told? → Accounts b key t elapsed function? answer told?
  | hindered {f : Failure} : b.Hindered t f → Accounts b key t elapsed none (.error f) none
  /-- The function was cancelled or aborted, or the classifier was. -/
  | aborted {f g : Failure} : g = f ∨ b.config.counts f = .error g → g.isOrdinary = false →
      Accounts b key t elapsed (some (.error f)) (.error g) none

variable {b : Breaker} {key : String} {s s' : Scene} {r e : Record} {f : Failure} {o : Opening}

theorem Stuck.not_rejects {t : Instant} (h : b.Stuck t f) : ¬ r.Rejects key f := by
  have htime : ∀ e, ¬ r.Rejects key (.time e) := by
    rintro e (⟨-, seconds, h⟩ | ⟨-, h⟩) <;> cases h
  cases h with
  | window => exact htime _
  | change h =>
      obtain hun | ⟨target, err, -, rfl⟩ := change_error_cases h
      · cases hun with
        | undated => exact htime _
        | unweighed => rintro (⟨-, seconds, h⟩ | ⟨-, h⟩) <;> cases h
      · exact htime err

theorem not_rejects_bothFailed (key' : String) (g g' : Failure) : ¬ r.Rejects key (bothFailed key' g g') := by
  rintro (⟨-, seconds, h⟩ | ⟨-, h⟩) <;> cases h

theorem bothFailed_ne (key : String) (f g : Failure) : bothFailed key f g ≠ f := by
  intro h
  have hsize := congrArg sizeOf h
  simp +arith [bothFailed] at hsize

theorem Hindered.not_rejects {t : Instant} (h : b.Hindered t f) : ¬ r.Rejects key f := by
  intro hrejects
  cases h with
  | stuck h => exact h.not_rejects hrejects
  | store h | aborted h => obtain ⟨-, seconds, rfl⟩ | ⟨-, rfl⟩ := hrejects <;> cases h

section

variable {t : Instant} {elapsed : Binary64} {function? : Option (Except Failure Json)}
  {answer : Except Failure Json} {told? : Option Occurrence}

theorem Verdict.isOrdinary {o : Occurrence} (h : b.Verdict key t elapsed function? (.error f) o) :
    f.isOrdinary = true := by
  cases h with
  | rejected h => obtain ⟨-, seconds, rfl⟩ | ⟨-, rfl⟩ := h <;> rfl
  | @unrolled e => cases e <;> rfl
  | raised h | unjudged _ _ h => exact h

namespace Accounts

theorem verdict {o : Occurrence} (h : b.Accounts key t elapsed function? answer (some o)) :
    b.Verdict key t elapsed function? answer o := by
  generalize htold : some o = told? at h
  cases h with
  | closed hverdict hcloses =>
      cases hcloses with
      | told =>
          cases htold
          exact hverdict
      | unsaved | stuck | aborted => cases htold
  | hindered | aborted => cases htold

theorem told_of_ok {v : Json} (h : b.Accounts key t elapsed function? (.ok v) told?) :
    function? = some (.ok v) ∧ told? = some (.succeeded key elapsed) := by
  generalize hanswer : Except.ok v = answer at h
  cases h with
  | closed hverdict hcloses =>
      cases hcloses with
      | told => cases hverdict <;> cases hanswer; exact ⟨rfl, rfl⟩
      | unsaved | stuck | aborted => cases hanswer
  | hindered | aborted => cases hanswer

theorem told_of_rejects (h : b.Accounts key t elapsed none (.error f) told?) (hf : r.Rejects key f) :
    told? = some (.rejected key r.status) := by
  generalize hanswer : Except.error f = answer at h
  generalize hfunction : none = function? at h
  cases h with
  | @closed _ due _ o _ hverdict hcloses =>
      cases hcloses with
      | told =>
          subst hanswer hfunction
          cases hverdict with
          | rejected hf' => rw [hf.status_eq hf']
          | unrolled h => exact absurd hf (Stuck.window h).not_rejects
      | unsaved hstore =>
          cases hanswer
          cases due with
          | ok v => exact absurd hf (Hindered.store (b := b) (t := t) hstore).not_rejects
          | error g => exact absurd hf (not_rejects_bothFailed key g _)
      | stuck hstuck => cases hanswer; exact absurd hf hstuck.not_rejects
      | aborted hg => cases hanswer; exact absurd hf (Hindered.aborted (b := b) (t := t) hg).not_rejects
  | hindered h => cases hanswer; exact absurd hf h.not_rejects
  | aborted => cases hfunction

/-- A call that raises what its function did is told as failed with it, unless the breaker's own
arithmetic failed in the same way. -/
theorem told_of_raised {counted : Bool} (h : b.Accounts key t elapsed (some (.error f)) (.error f) told?)
    (hf : f.isOrdinary = true) (hcounts : b.config.counts f = .ok counted) :
    told? = some (.failed key f elapsed) ∨ b.Stuck t f := by
  generalize hfunction : some (Except.error f) = function? at h
  generalize hanswer : Except.error f = answer at h
  cases h with
  | closed hverdict hcloses =>
      cases hverdict with
      | rejected | unrolled | returned => cases hfunction
      | unjudged _ hc =>
          cases hfunction
          rw [hcounts] at hc
          cases hc
      | raised =>
          cases hfunction
          cases hcloses with
          | told => exact .inl rfl
          | unsaved => exact absurd (Except.error.inj hanswer).symm (bothFailed_ne key f _)
          | stuck hstuck => cases hanswer; exact .inr hstuck
          | aborted hg => cases hanswer; rw [hf] at hg; cases hg
  | hindered => cases hfunction
  | aborted _ hg =>
      cases hanswer
      rw [hf] at hg
      cases hg

theorem untold_of_own (h : b.Accounts key t elapsed function? (.error f) told?)
    (hown : ∀ g, function? = some (.error g) → g ≠ f ∧ b.config.counts g ≠ .error f)
    (hf : f.isA .store = true ∨ ∃ called written, f = bothFailed key called written) : told? = none := by
  cases told? with
  | none => rfl
  | some o =>
      have hverdict := h.verdict
      exfalso
      generalize hanswer : Except.error f = answer at hverdict
      cases hverdict with
      | rejected hrejects =>
          cases hanswer
          obtain hf | ⟨called, written, rfl⟩ := hf
          · exact (Hindered.store (b := b) (t := t) hf).not_rejects hrejects
          · exact not_rejects_bothFailed key called written hrejects
      | @unrolled e =>
          cases hanswer
          obtain hf | ⟨called, written, h⟩ := hf
          · cases e <;> cases hf
          · cases h
      | returned => cases hanswer
      | raised => cases hanswer; exact (hown _ rfl).1 rfl
      | unjudged _ hc => cases hanswer; exact (hown _ rfl).2 hc

theorem untold_of_aborted (h : b.Accounts key t elapsed function? (.error f) told?)
    (hf : f.isOrdinary = false) : told? = none := by
  cases told? with
  | none => rfl
  | some o =>
      rw [h.verdict.isOrdinary] at hf
      cases hf

end Accounts

end

theorem asStoreFailure_error {α : Type} {operation : String} {a : Act α}
    (h : (asStoreFailure key operation a).play s = (.error f, s')) :
    f.isA .store = true ∨ f.isOrdinary = false := by
  rcases ha : a.play s with ⟨g | x, s₁⟩
  · rw [asStoreFailure, play_tryCatch_error s ha, play_throw] at h
    cases h
    split
    · rename_i hg
      simpa using hg
    · exact .inl rfl
  · rw [asStoreFailure, play_tryCatch_ok s ha] at h
    cases h

theorem save_error (h : (b.save key r).play s = (.error f, s')) :
    f.isA .store = true ∨ f.isOrdinary = false := by
  rcases hw : (write key r).play s with ⟨g | x, s₁⟩
  · have hg := asStoreFailure_error hw
    rw [save, play_tryCatch_error s hw] at h
    split at h
    · cases h
    · cases h
      exact hg
  · rw [save, play_tryCatch_ok s hw] at h
    cases h

theorem persist_error {called : Option Failure} (h : (b.persist key r called).play s = (.error f, s')) :
    (∃ g, g.isA .store = true ∧ f = called.elim g (bothFailed key · g)) ∨ f.isOrdinary = false := by
  rcases hs : (b.save key r).play s with ⟨g | x, s₁⟩
  · have hd : (discard (b.save key r) : Act Unit).play s = (.error g, s₁) := by
      rw [play_discard, hs]
      rfl
    rw [persist, play_tryCatch_error s hd] at h
    cases called with
    | none =>
        cases h
        exact (save_error hs).imp (fun hg => ⟨_, hg, rfl⟩) id
    | some e =>
        dsimp only at h
        split at h <;> rename_i hg <;> cases h
        · exact .inl ⟨g, hg, rfl⟩
        · exact .inr ((save_error hs).resolve_left hg)
  · rw [persist_of_save hs] at h
    cases h

theorem hindered_of_load (h : (b.load key).play s = (.error f, s')) : b.Hindered s.now f := by
  rcases hread : (readRecord key).play s with ⟨g | x, s₁⟩
  · obtain ⟨g', hg⟩ : ∃ g', (asStoreFailure key "get" (readRecord key)).play s = (.error g', s₁) :=
      ⟨_, play_tryCatch_error s hread _⟩
    rw [load, play_bind_error s hg] at h
    cases h
    exact (asStoreFailure_error hg).elim .store .aborted
  · rw [b.play_load_of_read hread] at h
    have hl := congrArg Prod.fst h
    cases x with
    | some r => cases hl
    | none =>
        cases hu : s.now.addSeconds b.config.samplingDuration with
        | ok u =>
            rw [loaded, Record.entering, hu] at hl
            cases hl
        | error e =>
            rw [loaded, Record.entering, hu] at hl
            cases hl
            exact .stuck (.window hu)

theorem hindered_of_advance (hb : b.Polite) {saving : Bool}
    (h : (b.advance key r saving).play s = (.error f, s')) : b.Hindered s.now f := by
  cases hc : b.change s.now r with
  | error g =>
      rw [advance_of_error hc] at h
      cases h
      exact .stuck (.change hc)
  | ok change =>
      cases change with
      | none =>
          rw [advance_of_none hc] at h
          cases h
      | some d =>
          obtain ⟨target, e⟩ := d
          -- no listener gets in the way of the announcement
          have htold : ∀ e' s₁, (do b.announce key r.status target; pure e' : Act Record).play s₁ ≠
              (.error f, s') := by
            intro e' s₁ he
            obtain ⟨out, s₂, hp, hy, -⟩ := b.announce_then r.status target e' s₁ key
            rw [hy.of_polite hb, he] at hp
            cases hp
          rw [advance_of_some hc] at h
          cases saving with
          | false => exact absurd h (htold e s)
          | true =>
              rw [if_pos rfl] at h
              rcases hs : (b.save key e).play s with ⟨g | e', s₁⟩
              · rw [play_bind_error s hs] at h
                cases h
                exact (save_error hs).elim .store .aborted
              · rw [play_bind_ok s hs] at h
                exact absurd h (htold e' s₁)

theorem hindered_of_begin (hb : b.Polite) (h : (b.begin key).play s = (.error f, s')) :
    b.Hindered s.now f := by
  rcases hload : (b.load key).play s with ⟨g | r, s₁⟩
  · rw [begin, play_bind_error s hload] at h
    cases h
    exact hindered_of_load hload
  · have hclock := b.keeps_load key sameClock_steady.toAccessSteady s
    rw [hload] at hclock
    rw [begin, play_bind_ok s hload] at h
    rcases hadvance : (b.advance key r true).play s₁ with ⟨g | e, s₂⟩
    · rw [play_bind_error s₁ hadvance] at h
      cases h
      exact hclock.1 ▸ hindered_of_advance hb hadvance
    · rw [play_bind_ok s₁ hadvance, begin_tail] at h
      cases h

theorem Advanced.dated {t : Instant} {rs : List Record} {ts : List (Status × Status)}
    (h : Advanced b t r (.ok e) rs ts) : e.Dated t := by
  cases h with
  | still hc => exact dated_of_change hc
  | moved hc hsaved =>
      obtain ⟨entered, hent, rfl⟩ := enter_eq_ok (change_eq_some hc).2
      cases hsaved <;> exact hent.dated

/-- A call that has begun goes on with a record whose deadline can be compared with the clock. -/
theorem opening_of_begin {permitted : Except Failure Unit}
    (h : (b.begin key).play s = (.ok (o, permitted), s')) :
    SameClock s s' ∧ s'.starts = s.starts ∧ ∃ r : Record, r.Dated s.now ∧
      o = b.opening key s.now s.monotonic r ∧
      permitted = (Record.permit b.config r.status key s.now r).2 := by
  obtain ⟨out, s₁, rs, ts, hp, hw, hopened⟩ := b.begin_weathers key s
  rw [h] at hp
  cases hp
  refine ⟨⟨hw.now, hw.monotonic⟩, hw.starts, ?_⟩
  cases hopened with
  | opened _ _ hadv => exact ⟨_, hadv.dated, rfl, rfl⟩

def outcome (key : String) (status : Status) (elapsed : Binary64) : Except Failure Json → Occurrence
  | .ok _ => .succeeded key elapsed
  | .error f => .ofFailure key status f elapsed

theorem tail_closes (hb : b.Polite) (key : String) (o : Opening) (called : Option Failure)
    (occurrence : Binary64 → Occurrence) (result : Except Failure Json)
    (hcalled : ∀ g, called.elim g (bothFailed key · g) = unsavedFailure key result g)
    (hhook : ∀ elapsed, (occurrence elapsed).hook ≠ .state) (s : Scene) :
    ∃ answer s' told?, (do
        let elapsed ← o.elapsed
        let r ← b.advance key o.record false
        b.persist key r called
        b.tell (occurrence elapsed)
        ofExcept result : Act Json).play s = (answer, s') ∧
      b.Closes key s.now result (occurrence ((s.monotonic - o.started).max Binary64.zero)) answer told? ∧
      b.Tells told? s s' := by
  have huntold := b.advance_untold key o.record false s
  rw [play_bind_ok s (play_elapsed o s)]
  obtain ⟨out, s₁, hadvance, -, ⟨f, hren, rfl⟩ | ⟨e, -, rfl⟩ | ⟨-, f, -, -, hn, -⟩⟩ :=
    b.advance_unsaved key o.record s
  · rw [hadvance] at huntold
    refine ⟨.error f, s₁, none, play_bind_error s hadvance _, .stuck ?_, tells_of_untold huntold⟩
    unfold renewed at hren
    cases hc : b.change s.now o.record with
    | error g =>
        rw [hc] at hren
        cases hren
        exact .change hc
    | ok change => rw [hc] at hren; cases hren
  · rw [hadvance] at huntold
    rw [play_bind_ok s hadvance]
    have huntold₁ := b.keeps_persist key untold_steady e called s₁
    rcases hpersist : (b.persist key e called).play s₁ with ⟨f | u, s₂⟩ <;> rw [hpersist] at huntold₁
    · refine ⟨.error f, s₂, none, play_bind_error s₁ hpersist _, ?_,
        tells_of_untold (huntold.trans huntold₁)⟩
      obtain ⟨g, hg, rfl⟩ | hf := persist_error hpersist
      · exact hcalled g ▸ .unsaved hg
      · exact .aborted hf
    · obtain ⟨s₃, htell, htells⟩ := tell_tells hb (hhook _) s₂
      refine ⟨result, s₃, _, ?_, .told, htells.after (huntold.trans huntold₁)⟩
      rw [play_bind_ok s₁ hpersist, play_bind_ok s₂ htell, play_ofExcept]
  · exact absurd hb hn

theorem finish_closes (hb : b.Polite) {result answer : Except Failure Json}
    (hr : ∀ f, result = .error f → f.isOrdinary = true)
    (h : (b.finish key o result).play s = (answer, s')) :
    ∃ told?, b.Closes key s.now result
        (outcome key o.status ((s.monotonic - o.started).max Binary64.zero) result) answer told? ∧
      b.Tells told? s s' := by
  have hplayed : ∃ answer s' told?, (b.finish key o result).play s = (answer, s') ∧
      b.Closes key s.now result
        (outcome key o.status ((s.monotonic - o.started).max Binary64.zero) result) answer told? ∧
      b.Tells told? s s' := by
    cases result with
    | ok v => exact tail_closes hb key o none (.succeeded key) (.ok v) (fun _ => rfl) (fun _ h => by cases h) s
    | error f =>
        obtain ⟨answer', s₁, told?, hp, hends⟩ :=
          tail_closes hb key o (some f) (.ofFailure key o.status f) (.error f) (fun _ => rfl)
            (hook_ofFailure key o.status f) s
        refine ⟨answer', s₁, told?, ?_, hends⟩
        rw [finish]
        simp only [hr f rfl, if_true]
        exact hp
  obtain ⟨answer', s₁, told?, hp, hends⟩ := hplayed
  rw [h] at hp
  cases hp
  exact ⟨told?, hends⟩

theorem ofFailure_of_admits {status : Status} (h : status.rejects = false) (key : String) (f : Failure)
    (elapsed : Binary64) : Occurrence.ofFailure key status f elapsed = .failed key f elapsed := by
  rw [Occurrence.ofFailure, h]
  rfl

theorem conclude_accounts (hb : b.Polite) (ho : o.status.rejects = false)
    {result answer : Except Failure Json} (h : (b.conclude key o result).play s = (answer, s')) :
    ∃ told?, b.Accounts key s.now ((s.monotonic - o.started).max Binary64.zero) (some result) answer
        told? ∧ b.Tells told? s s' := by
  rw [conclude_eq] at h
  obtain ⟨hsettled, hcounts⟩ | ⟨f, g, rfl, hf, hc, hsettled⟩ :=
    Record.settle_result_cases b.config o.status o.record result <;> rw [hsettled] at h
  · cases result with
    | ok v =>
        obtain ⟨told?, hcloses, htells⟩ := finish_closes hb (fun f hf => by cases hf) h
        exact ⟨told?, .closed .returned hcloses, htells⟩
    | error f =>
        cases hf : f.isOrdinary with
        | false =>
            rw [b.finish_of_not_ordinary key _ hf] at h
            cases h
            exact ⟨none, .aborted (.inl rfl) hf, tells_of_untold (untold_steady.refl s)⟩
        | true =>
            obtain ⟨counted, hc⟩ := hcounts f rfl hf
            obtain ⟨told?, hcloses, htells⟩ := finish_closes hb (fun g hg => by cases hg; exact hf) h
            rw [outcome, ofFailure_of_admits ho] at hcloses
            exact ⟨told?, .closed (.raised hf hc) hcloses, htells⟩
  · cases hg : g.isOrdinary with
    | false =>
        rw [b.finish_of_not_ordinary key _ hg] at h
        cases h
        exact ⟨none, .aborted (.inr hc) hg, tells_of_untold (untold_steady.refl s)⟩
    | true =>
        obtain ⟨told?, hcloses, htells⟩ := finish_closes hb (fun g' hg' => by cases hg'; exact hg) h
        rw [outcome, ofFailure_of_admits ho] at hcloses
        exact ⟨told?, .closed (.unjudged hf hc hg) hcloses, htells⟩

theorem refused_accounts (hb : b.Polite) (hdated : r.Dated s.now) (m : Binary64)
    (hpermit : (Record.permit b.config r.status key s.now r).2 = .error f)
    {answer : Except Failure Json}
    (h : (b.finish key (b.opening key s.now m r) (.error f)).play s = (answer, s')) :
    ∃ told?, b.Accounts key s.now ((s.monotonic - m).max Binary64.zero) none answer told? ∧
      b.Tells told? s s' := by
  have hordinary := Record.isOrdinary_of_permit hpermit
  obtain ⟨told?, hcloses, htells⟩ := finish_closes hb (fun g hg => by cases hg; exact hordinary) h
  refine ⟨told?, .closed ?_ hcloses, htells⟩
  obtain hp | ⟨g, hp, hrejects⟩ | ⟨hs, err, herr, hp⟩ := hdated.permit_cases b.config key <;>
    rw [hp] at hpermit <;> cases hpermit
  · have hrejected : ∀ elapsed, outcome key r.status elapsed (.error f) = .rejected key r.status :=
      fun _ => if_pos hrejects.rejects
    change b.Verdict _ _ _ _ _ (outcome key r.status _ _)
    rw [hrejected]
    exact .rejected hrejects
  · have hadmits : r.status.rejects = false := by rw [hs]; rfl
    change b.Verdict _ _ _ _ _ (outcome key r.status _ _)
    rw [outcome, ofFailure_of_admits hadmits]
    exact .unrolled herr

inductive StartedAtOnce (b : Breaker) (key : String) (w : Work) (s s' : Scene) :
    Option (Except Failure Json) → Prop
  | never : s'.starts = s.starts → StartedAtOnce b key w s s' none
  | failed {f : Failure} : ((w.start key).play ((b.begin key).play s).2).1 = .error f →
      s'.starts = key :: s.starts → StartedAtOnce b key w s s' (some (.error f))

theorem enterCall_accounts (hb : b.Polite) {w : Work} {out : Except Failure Stage}
    (h : (b.enterCall key w).play s = (out, s')) (hout : ∀ o, out ≠ .ok (.running o)) :
    ∃ function? answer told?, out = answer.map Stage.ended ∧
      b.StartedAtOnce key w s s' function? ∧
      b.Accounts key s.now ((s.monotonic - s.monotonic).max Binary64.zero) function? answer told? ∧
      b.Tells told? s s' := by
  have huntold := b.begin_untold key s
  have hstarts := b.keeps_begin key sameStarts_steady s
  rcases hbegin : (b.begin key).play s with ⟨f | ⟨o, permitted⟩, s₁⟩ <;>
    rw [play_enterCall w hbegin] at h <;> rw [hbegin] at huntold hstarts
  · cases h
    exact ⟨none, .error f, none, rfl, .never hstarts, .hindered (hindered_of_begin hb hbegin),
      tells_of_untold huntold⟩
  obtain ⟨⟨hnow, hmonotonic⟩, -, r, hdated, rfl, rfl⟩ := opening_of_begin hbegin
  let o := b.opening key s.now s.monotonic r
  cases hpermit : (Record.permit b.config r.status key s.now r).2 with
  | error f =>
      have hkept := b.keeps_finish key sameStarts_steady o (.error f) s₁
      rcases hfinish : (b.finish key o (.error f)).play s₁ with ⟨answer, s₂⟩
      rw [hpermit, goOn, play_map, hfinish] at h
      cases h
      rw [hfinish] at hkept
      have hend : (b.finish key (b.opening key s₁.now s.monotonic r) (.error f)).play s₁ = (answer, s₂) := by
        rw [hnow]
        exact hfinish
      rw [← hnow] at hdated hpermit
      obtain ⟨told?, haccounts, htells⟩ := refused_accounts hb hdated s.monotonic hpermit hend
      rw [hnow, hmonotonic] at haccounts
      exact ⟨none, answer, told?, rfl, .never (hkept.trans hstarts), haccounts, htells.after huntold⟩
  | ok u =>
      rw [hpermit, goOn] at h
      obtain ⟨started, s₂, hstart, hs₂⟩ := start_started w key s₁
      have huntold₂ := w.start_untold key s₁
      rw [hstart] at h huntold₂
      cases started with
      | ok u =>
          cases h
          exact absurd rfl (hout _)
      | error f =>
          obtain ⟨-, hnow₂, hmonotonic₂⟩ := hs₂.failed f rfl
          have hkept := b.keeps_conclude key sameStarts_steady o (.error f) s₂
          rcases hconclude : (b.conclude key o (.error f)).play s₂ with ⟨answer, s₃⟩
          dsimp only at h
          rw [play_map, hconclude] at h
          cases h
          rw [hconclude] at hkept
          obtain ⟨told?, haccounts, htells⟩ :=
            conclude_accounts hb (Record.rejects_of_permit hpermit) hconclude
          rw [hnow₂, hmonotonic₂, hnow, hmonotonic] at haccounts
          refine ⟨some (.error f), answer, told?, rfl, .failed ?_ ?_, haccounts,
            htells.after (huntold.trans huntold₂)⟩
          · rw [hbegin, hstart]
          · rw [hkept, hs₂.starts, hstarts]

end Breaker

end KeyedBreaker
