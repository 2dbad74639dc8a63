import KeyedBreaker.Proofs.Breaker.Basic
import KeyedBreaker.Task.Basic

namespace KeyedBreaker.Breaker

open Act

variable {b : Breaker} {s : Scene} {key : String} {x : Option Record} {r : Record}

theorem play_elapsed (o : Opening) (s : Scene) :
    o.elapsed.play s = (.ok ((s.monotonic - o.started).max Binary64.zero), s) := by
  rw [Opening.elapsed, play_bind_ok s (play_monotonic s), play_pure]

theorem persist_of_save {called : Option Failure} {e : Record} {s' : Scene}
    (h : (b.save key r).play s = (.ok e, s')) :
    (b.persist key r called).play s = (.ok (), s') := by
  refine play_tryCatch_ok s ?_ _
  rw [play_discard, h]
  rfl

/-- A record is saved over one of its own version, and otherwise dropped with a notice. -/
structure Persisted (b : Breaker) (key : String) (x : Option Record) (r : Record)
    (s s' : Scene) : Prop where
  current : r.version = Record.versionOf x → s.Leads key [r.next] (tried key [r.next]) s'
  stale : r.version ≠ Record.versionOf x →
    s.Leads key [] [b.conflictNotice key r.version (Record.versionOf x),
      .storeWrite key r.version] s'

theorem Persisted.trans {s₁ s₂ s₃ : Scene} (h : s₁.Leads key [] [] s₂)
    (h' : b.Persisted key x r s₂ s₃) : b.Persisted key x r s₁ s₃ where
  current hv := by simpa using h.trans (h'.current hv)
  stale hv := h.trans (h'.stale hv)

theorem Persisted.leads {s₁ s₂ s₃ : Scene} (h : b.Persisted key x r s₁ s₂)
    (h' : s₂.Leads key [] [] s₃) : b.Persisted key x r s₁ s₃ where
  current hv := (h.current hv).trans h'
  stale hv := (h.stale hv).trans h'

theorem persist_leads (b : Breaker) (hq : s.Quiet) (hx : s.store.lookup key = .ok x) (r : Record)
    (called : Option Failure) :
    ∃ s', (b.persist key r called).play s = (.ok (), s') ∧ b.Persisted key x r s s' := by
  by_cases hv : r.version = Record.versionOf x
  · obtain ⟨s', hs, hl⟩ := b.save_leads hq hx hv
    exact ⟨s', persist_of_save hs, fun _ => hl, fun hn => absurd hv hn⟩
  · obtain ⟨s', hs, hl⟩ := b.save_leads_stale hq hx hv
    exact ⟨s', persist_of_save hs, fun h => absurd h hv, fun _ => hl⟩

/-- How the end of a call comes out: its record cannot be renewed, or a listener gets in the way of
announcing the transition, and nothing is saved; or the renewed record is saved or dropped. -/
inductive Finished {α : Type} (b : Breaker) (key : String) (x : Option Record) (r : Record)
    (result : Except Failure α) (s : Scene) : Except Failure α → Scene → Prop
  | unrenewed {f : Failure} {s' : Scene} : b.renewed s.now r = .error f → s.Leads key [] [] s' →
      Finished b key x r result s (.error f) s'
  | unannounced {change : Status × Record} {f : Failure} {s' : Scene} :
      b.change s.now r = .ok (some change) → f.isOrdinary = false → ¬ b.Polite →
      s.Leads key [] [] s' → Finished b key x r result s (.error f) s'
  | persisted {e : Record} {out : Except Failure α} {s' : Scene} : b.renewed s.now r = .ok e →
      b.Persisted key x e s s' → b.Yields out result → Finished b key x r result s out s'

theorem finish_tail (b : Breaker) (hq : s.Quiet) (hx : s.store.lookup key = .ok x)
    (o : Opening) (called : Option Failure) (occurrence : Binary64 → Occurrence)
    (result : Except Failure Json) :
    ∃ out s', (do
        let elapsed ← o.elapsed
        let r ← b.advance key o.record false
        b.persist key r called
        b.tell (occurrence elapsed)
        ofExcept result : Act Json).play s = (out, s') ∧
      Finished b key x o.record result s out s' := by
  rw [play_bind_ok s (play_elapsed o s)]
  obtain ⟨out₁, s₁, ha, hl₁, ⟨f, hr, rfl⟩ | ⟨e, hr, rfl⟩ | ⟨d, f, hd, hf, hb, rfl⟩⟩ :=
    b.advance_unsaved key o.record s
  · exact ⟨.error f, s₁, play_bind_error s ha _, .unrenewed hr hl₁⟩
  · rw [play_bind_ok s ha]
    obtain ⟨s₂, hp, hper⟩ := b.persist_leads (hl₁.quiet hq) ((hl₁.lookup_eq key).trans hx) e called
    rw [play_bind_ok s₁ hp]
    have hper := Persisted.trans hl₁ hper
    obtain ⟨told, es, hu, hes, ht⟩ :=
      b.tell_utters (occurrence ((s.monotonic - o.started).max Binary64.zero))
    have hl := hper.leads (.seeing hes key s₂)
    rcases ht with rfl | ⟨f, hf, hb, rfl⟩
    · refine ⟨result, _, ?_, .persisted hr hl (.inl rfl)⟩
      rw [play_bind_ok s₂ (hu s₂), play_ofExcept]
    · exact ⟨.error f, _, play_bind_error s₂ (hu s₂) _, .persisted hr hl (.inr ⟨f, hf, hb, rfl⟩)⟩
  · exact ⟨.error f, s₁, play_bind_error s ha _, .unannounced hd hf hb hl₁⟩

theorem finish_finished (b : Breaker) (hq : s.Quiet) (hx : s.store.lookup key = .ok x)
    (o : Opening) (result : Except Failure Json)
    (hr : ∀ f, result = .error f → f.isOrdinary = true) :
    ∃ out s', (b.finish key o result).play s = (out, s') ∧
      Finished b key x o.record result s out s' := by
  cases result with
  | ok v => exact b.finish_tail hq hx o none (.succeeded key) (.ok v)
  | error f =>
      have hf := hr f rfl
      obtain ⟨out, s', hp, hfin⟩ :=
        b.finish_tail hq hx o (some f) (.ofFailure key o.status f) (.error f)
      refine ⟨out, s', ?_, hfin⟩
      rw [← hp, finish]
      simp only [hf, if_true]
      rfl

theorem finish_of_not_ordinary (b : Breaker) (key : String) (o : Opening) {f : Failure}
    (hf : f.isOrdinary = false) (s : Scene) :
    (b.finish key o (.error f)).play s = (.error f, s) := by
  rw [finish]
  simp only [hf]
  rfl

theorem conclude_eq (b : Breaker) (key : String) (o : Opening) (result : Except Failure Json) :
    b.conclude key o result =
      b.finish key { o with record := (Record.settle b.config o.status o.record result).1 }
        (Record.settle b.config o.status o.record result).2 := rfl

/-- How the second part of a call comes out: a result that is not an outcome of its function leaves
the scene alone, and any other is counted. -/
inductive Concluded (b : Breaker) (key : String) (x : Option Record) (o : Opening)
    (result : Except Failure Json) (s : Scene) : Except Failure Json → Scene → Prop
  | uncounted {f : Failure} : (Record.settle b.config o.status o.record result).2 = .error f →
      f.isOrdinary = false → Concluded b key x o result s (.error f) s
  | counted {out : Except Failure Json} {s' : Scene} :
      Finished b key x (Record.settle b.config o.status o.record result).1
        (Record.settle b.config o.status o.record result).2 s out s' →
      Concluded b key x o result s out s'

theorem conclude_concluded (b : Breaker) (hq : s.Quiet) (hx : s.store.lookup key = .ok x)
    (o : Opening) (result : Except Failure Json) :
    ∃ out s', (b.conclude key o result).play s = (out, s') ∧
      Concluded b key x o result s out s' := by
  rw [conclude_eq]
  by_cases h : ∃ f, (Record.settle b.config o.status o.record result).2 = .error f ∧
      f.isOrdinary = false
  · obtain ⟨f, hr, hf⟩ := h
    rw [hr]
    exact ⟨.error f, s, b.finish_of_not_ordinary key _ hf s, .uncounted hr hf⟩
  · obtain ⟨out, s', hp, hfin⟩ := b.finish_finished hq hx
      { o with record := (Record.settle b.config o.status o.record result).1 }
      (Record.settle b.config o.status o.record result).2
      fun f hr => Bool.of_not_eq_false fun hf => h ⟨f, hr, hf⟩
    exact ⟨out, s', hp, .counted hfin⟩

theorem concluded_of_play {out : Except Failure Json} {s' : Scene} {o : Opening}
    {result : Except Failure Json} (hq : s.Quiet) (hx : s.store.lookup key = .ok x)
    (h : (b.conclude key o result).play s = (out, s')) : Concluded b key x o result s out s' := by
  obtain ⟨out', s₁, hp, hc⟩ := b.conclude_concluded hq hx o result
  rw [h] at hp
  cases hp
  exact hc

def opening (b : Breaker) (key : String) (t : Instant) (started : Binary64) (r : Record) :
    Opening where
  record := (Record.permit b.config r.status key t r).1
  status := r.status
  started := started

/-- The record under whose rules a call is made, and what is kept before: the record loaded, where no
transition is due, and otherwise the one that was saved. -/
inductive Admitted (b : Breaker) (t : Instant) (x : Option Record) : Record → List Record → Prop
  | loaded {r : Record} : b.loaded t (.ok x) = .ok r → b.change t r = .ok none →
      Admitted b t x r []
  | changed {r e : Record} {target : Status} : b.loaded t (.ok x) = .ok r →
      b.change t r = .ok (some (target, e)) → Admitted b t x e.next [e.next]

inductive Begun (b : Breaker) (key : String) (x : Option Record) (s : Scene) :
    Except Failure (Opening × Except Failure Unit) → Scene → Prop
  | unloaded {f : Failure} {s' : Scene} : b.loaded s.now (.ok x) = .error f →
      s.Leads key [] [] s' → Begun b key x s (.error f) s'
  | unchanged {f : Failure} {r : Record} {s' : Scene} : b.loaded s.now (.ok x) = .ok r →
      b.change s.now r = .error f → s.Leads key [] [] s' → Begun b key x s (.error f) s'
  | unannounced {f : Failure} {r e : Record} {target : Status} {s' : Scene} :
      b.loaded s.now (.ok x) = .ok r → b.change s.now r = .ok (some (target, e)) →
      f.isOrdinary = false → ¬ b.Polite → s.Leads key [e.next] (tried key [e.next]) s' →
      Begun b key x s (.error f) s'
  | begun {r : Record} {rs : List Record} {s' : Scene} : b.Admitted s.now x r rs →
      s.Leads key rs (tried key rs) s' →
      Begun b key x s (.ok (b.opening key s.now s.monotonic r,
        (Record.permit b.config r.status key s.now r).2)) s'

theorem begin_tail (b : Breaker) (key : String) (r : Record) (s : Scene) :
    (do
      let started ← monotonic
      let (record, permitted) := Record.permit b.config r.status key (← now) r
      pure ({ record, status := r.status, started }, permitted) :
      Act (Opening × Except Failure Unit)).play s =
      (.ok (b.opening key s.now s.monotonic r,
        (Record.permit b.config r.status key s.now r).2), s) := rfl

theorem begin_begun (b : Breaker) (hq : s.Quiet) (hx : s.store.lookup key = .ok x) :
    ∃ out s', (b.begin key).play s = (out, s') ∧ Begun b key x s out s' := by
  obtain ⟨s₁, hload, hl₁⟩ := b.load_leads hq key
  rw [hx] at hload
  cases hr : b.loaded s.now (.ok x) with
  | error f =>
      rw [hr] at hload
      exact ⟨.error f, s₁, play_bind_error s hload _, .unloaded hr hl₁⟩
  | ok r =>
      rw [hr] at hload
      rw [begin, play_bind_ok s hload]
      obtain ⟨out, s₂, ha, h⟩ :=
        b.advance_saved (hl₁.quiet hq) ((hl₁.lookup_eq key).trans hx) (versionOf_loaded hr)
      rw [hl₁.now] at h
      rcases h with ⟨f, hc, rfl, rfl⟩ | ⟨hc, rfl, rfl⟩ | ⟨target, e, hc, rfl | ⟨f, hf, hb, rfl⟩, hl₂⟩
      · exact ⟨.error f, s₂, play_bind_error s₂ ha _, .unchanged hr hc hl₁⟩
      · refine ⟨_, s₂, ?_, .begun (.loaded hr hc) hl₁⟩
        rw [play_bind_ok s₂ ha, begin_tail, hl₁.now, hl₁.monotonic]
      · have hl := hl₁.trans hl₂
        rw [List.append_nil] at hl
        refine ⟨_, s₂, ?_, .begun (.changed hr hc) hl⟩
        rw [play_bind_ok s₁ ha, begin_tail, hl.now, hl.monotonic]
      · have hl := hl₁.trans hl₂
        rw [List.append_nil] at hl
        exact ⟨.error f, s₂, play_bind_error s₁ ha _, .unannounced hr hc hf hb hl⟩

theorem begin_of_unread (b : Breaker) (hq : s.Quiet) {f : Failure}
    (hx : s.store.lookup key = .error f) :
    ∃ s', (b.begin key).play s = (.error f, s') ∧ s.Leads key [] [] s' := by
  obtain ⟨s₁, hload, hl₁⟩ := b.load_leads hq key
  rw [hx] at hload
  exact ⟨s₁, play_bind_error s hload _, hl₁⟩

def goOn (b : Breaker) (key : String) (w : Work) :
    Except Failure (Opening × Except Failure Unit) → Scene → Except Failure Stage × Scene
  | .error f, s => (.error f, s)
  | .ok (o, .error f), s => (Stage.ended <$> b.finish key o (.error f)).play s
  | .ok (o, .ok ()), s =>
    match (w.start key).play s with
    | (.error f, s') => (Stage.ended <$> b.conclude key o (.error f)).play s'
    | (.ok (), s') => (.ok (.running o), s')

theorem play_enterCall (w : Work) {out : Except Failure (Opening × Except Failure Unit)} {s₁ : Scene}
    (h : (b.begin key).play s = (out, s₁)) :
    (b.enterCall key w).play s = b.goOn key w out s₁ := by
  cases out with
  | error f => exact play_bind_error s h _
  | ok p =>
      obtain ⟨o, permitted⟩ := p
      rw [enterCall, play_bind_ok s h]
      cases permitted with
      | error f => rfl
      | ok u =>
          rw [goOn]
          dsimp only
          rw [play_bind_ok s₁ (play_observing s₁ (w.start key))]
          cases (w.start key).play s₁ with
          | mk out₂ s₂ => cases out₂ <;> rfl

structure Started (key : String) (s : Scene) (out : Except Failure Unit) (s' : Scene) : Prop where
  store : s'.store = s.store
  faults : s'.faults = s.faults
  events : s'.events = .started key :: s.events
  failed : ∀ f, out = .error f →
    f.isOrdinary = true ∧ s'.now = s.now ∧ s'.monotonic = s.monotonic

theorem Started.starts {out : Except Failure Unit} {s' : Scene} (h : Started key s out s') :
    s'.starts = key :: s.starts := by
  rw [Scene.starts, h.events]
  rfl

theorem Started.tries {out : Except Failure Unit} {s' : Scene} (h : Started key s out s') :
    s'.tries = s.tries := by
  rw [Scene.tries, h.events]
  rfl

theorem start_started (w : Work) (key : String) (s : Scene) :
    ∃ out s', (w.start key).play s = (out, s') ∧ Started key s out s' := by
  let seen := s.seeing [.started key]
  have he : (emit (.started key)).play s = (.ok (), seen) := rfl
  rw [Work.start, play_bind_ok s he]
  cases ha : w.advance with
  | none =>
      cases hm : w.monotonic <;> exact ⟨_, _, rfl, rfl, rfl, rfl, fun _ hf => by cases hf⟩
  | some seconds =>
      cases ht : seen.now.addSeconds seconds with
      | error e =>
          have hadv : (advanceClock seconds).play seen = (.error (.time e), seen) := by
            rw [advanceClock, play_bind_ok seen (play_now seen), ht]
            rfl
          refine ⟨_, _, play_bind_error seen hadv _, rfl, rfl, rfl, ?_⟩
          intro f hf
          cases hf
          exact ⟨Failure.isOrdinary_time e, rfl, rfl⟩
      | ok t =>
          have hadv : (advanceClock seconds).play seen = (.ok (), { seen with now := t }) := by
            rw [advanceClock, play_bind_ok seen (play_now seen), ht]
            rfl
          dsimp only
          rw [play_bind_ok seen hadv]
          cases hm : w.monotonic <;> exact ⟨_, _, rfl, rfl, rfl, rfl, fun _ hf => by cases hf⟩

theorem Started.idle_store {out : Except Failure Unit} {s' : Scene} (h : Started key s out s') :
    s.Gains key [] s' where
  faults := h.faults
  store := by
    rw [h.store]
    exact .refl
  tries := h.tries

theorem Finished.gains {α : Type} {result out : Except Failure α} {s' : Scene}
    (h : Finished b key x r result s out s') (hv : r.version = Record.versionOf x) :
    s'.starts = s.starts ∧ ∃ rs, s.Gains key rs s' ∧ rs.length ≤ 1 := by
  cases h with
  | unrenewed _ hl => exact ⟨hl.starts, [], hl.gains, Nat.zero_le 1⟩
  | unannounced _ _ _ hl => exact ⟨hl.starts, [], hl.gains, Nat.zero_le 1⟩
  | persisted hr hp _ =>
      have hl := hp.current ((version_renewed hr).trans hv)
      exact ⟨hl.starts, _, hl.gains, Nat.le_refl 1⟩

theorem Concluded.gains {o : Opening} {result out : Except Failure Json} {s' : Scene}
    (h : Concluded b key x o result s out s') (hv : o.record.version = Record.versionOf x) :
    s'.starts = s.starts ∧ ∃ rs, s.Gains key rs s' ∧ rs.length ≤ 1 := by
  cases h with
  | uncounted => exact ⟨rfl, [], (Scene.Idle.refl s).gains key, Nat.zero_le 1⟩
  | counted h => exact h.gains ((Record.version_settle _).trans hv)

/-- Over a store that somebody else has written to since, the end of a call keeps nothing. -/
theorem Finished.idle_of_stale {α : Type} {result out : Except Failure α} {s' : Scene}
    (h : Finished b key x r result s out s') (hv : r.version ≠ Record.versionOf x) :
    s'.starts = s.starts ∧ s'.faults = s.faults ∧ s'.store = s.store := by
  cases h with
  | unrenewed _ hl => exact ⟨hl.starts, hl.faults, hl.store.lookup_nil⟩
  | unannounced _ _ _ hl => exact ⟨hl.starts, hl.faults, hl.store.lookup_nil⟩
  | persisted hr hp _ =>
      have hl := hp.stale ((version_renewed hr).trans_ne hv)
      exact ⟨hl.starts, hl.faults, hl.store.lookup_nil⟩

theorem Concluded.idle_of_stale {o : Opening} {result out : Except Failure Json} {s' : Scene}
    (h : Concluded b key x o result s out s') (hv : o.record.version ≠ Record.versionOf x) :
    s'.starts = s.starts ∧ s'.faults = s.faults ∧ s'.store = s.store := by
  cases h with
  | uncounted => exact ⟨rfl, rfl, rfl⟩
  | counted h => exact h.idle_of_stale ((Record.version_settle _).trans_ne hv)

def statusOf (x : Option Record) : Status := (x.map (·.status)).getD .closed

theorem status_loaded {t : Instant} (h : b.loaded t (.ok x) = .ok r) : r.status = statusOf x := by
  obtain rfl | ⟨rfl, hent⟩ := loaded_cases h
  · rfl
  · exact hent.status

theorem Admitted.head {t : Instant} {rs : List Record} (h : b.Admitted t x r rs) :
    r.version = Record.versionOf (rs.head?.or x) ∧ r.status = statusOf (rs.head?.or x) := by
  cases h with
  | loaded hl _ => exact ⟨versionOf_loaded hl, status_loaded hl⟩
  | changed => exact ⟨rfl, rfl⟩

/-- A running call knows the record that the store holds for its key. -/
structure Opening.Current (o : Opening) (y : Option Record) : Prop where
  version : o.record.version = Record.versionOf y
  status : o.status = statusOf y
  recorded : o.record.status = o.status
  admits : o.status.rejects = false

/-- How a call up to its first pause comes out: nothing begins, or the call is turned away, or its
function fails at its start, or the function is running. -/
inductive EnteredCall (b : Breaker) (key : String) (x : Option Record) (s : Scene) :
    Except Failure Stage → Scene → Prop
  | unbegun {f : Failure} {s' : Scene} : Begun b key x s (.error f) s' →
      EnteredCall b key x s (.error f) s'
  | rejected {r : Record} {rs : List Record} {f : Failure} {s₁ s' : Scene}
      {out : Except Failure Json} : b.Admitted s.now x r rs → s.Leads key rs (tried key rs) s₁ →
      (Record.permit b.config r.status key s.now r).2 = .error f →
      Finished b key (rs.head?.or x) (Record.permit b.config r.status key s.now r).1 (.error f)
        s₁ out s' →
      EnteredCall b key x s (out.map Stage.ended) s'
  | failed {r : Record} {rs : List Record} {f : Failure} {s₁ s₂ s' : Scene}
      {out : Except Failure Json} : b.Admitted s.now x r rs → s.Leads key rs (tried key rs) s₁ →
      (Record.permit b.config r.status key s.now r).2 = .ok () →
      Started key s₁ (.error f) s₂ →
      Concluded b key (rs.head?.or x) (b.opening key s.now s.monotonic r) (.error f) s₂ out s' →
      EnteredCall b key x s (out.map Stage.ended) s'
  | running {r : Record} {rs : List Record} {s₁ s' : Scene} : b.Admitted s.now x r rs →
      s.Leads key rs (tried key rs) s₁ →
      (Record.permit b.config r.status key s.now r).2 = .ok () →
      Started key s₁ (.ok ()) s' →
      EnteredCall b key x s (.ok (.running (b.opening key s.now s.monotonic r))) s'

theorem enterCall_entered (b : Breaker) (hq : s.Quiet) (hx : s.store.lookup key = .ok x) (w : Work) :
    ∃ out s', (b.enterCall key w).play s = (out, s') ∧ EnteredCall b key x s out s' := by
  obtain ⟨out, s₁, hp, hb⟩ := b.begin_begun hq hx
  cases out with
  | error f => exact ⟨.error f, s₁, play_enterCall w hp, .unbegun hb⟩
  | ok p =>
      cases hb with
      | begun ha hl =>
          rename_i r rs
          have hq₁ := hl.quiet hq
          have hx₁ := hl.store.lookup hx
          rw [play_enterCall w hp]
          cases hperm : (Record.permit b.config r.status key s.now r).2 with
          | error f =>
              rw [goOn]
              obtain ⟨out, s', hf, hfin⟩ := b.finish_finished hq₁ hx₁
                (b.opening key s.now s.monotonic r) (.error f)
                fun g hg => by cases hg; exact Record.isOrdinary_of_permit hperm
              refine ⟨out.map Stage.ended, s', ?_, .rejected ha hl hperm hfin⟩
              rw [play_map, hf]
          | ok u =>
              obtain ⟨out, s₂, hst, hstarted⟩ := start_started w key s₁
              rw [goOn, hst]
              cases out with
              | ok u => exact ⟨_, s₂, rfl, .running ha hl hperm hstarted⟩
              | error f =>
                  have hx₂ : s₂.store.lookup key = .ok (rs.head?.or x) := by
                    rw [hstarted.store]
                    exact hx₁
                  obtain ⟨out, s', hf, hcon⟩ := b.conclude_concluded
                    (hstarted.idle_store.quiet hq₁) hx₂ (b.opening key s.now s.monotonic r) (.error f)
                  refine ⟨out.map Stage.ended, s', ?_, .failed ha hl hperm hstarted hcon⟩
                  dsimp only
                  rw [play_map, hf]

theorem Admitted.current {t : Instant} {m : Binary64} {rs : List Record} (h : b.Admitted t x r rs)
    (hp : (Record.permit b.config r.status key t r).2 = .ok ()) :
    (b.opening key t m r).Current (rs.head?.or x) where
  version := Record.version_permit.trans h.head.1
  status := h.head.2
  recorded := Record.status_permit
  admits := Record.rejects_of_permit hp

theorem Admitted.loads {t : Instant} {rs : List Record} (h : b.Admitted t x r rs) :
    ∃ r', b.loaded t (.ok x) = .ok r' := by
  cases h with
  | loaded hl _ => exact ⟨r, hl⟩
  | changed hl _ => exact ⟨_, hl⟩

theorem Begun.gains {f : Failure} {s' : Scene} (h : Begun b key x s (.error f) s') :
    s'.starts = s.starts ∧ ∃ rs, s.Gains key rs s' := by
  cases h with
  | unloaded _ hl => exact ⟨hl.starts, [], hl.gains⟩
  | unchanged _ _ hl => exact ⟨hl.starts, [], hl.gains⟩
  | unannounced _ _ _ _ hl => exact ⟨hl.starts, _, hl.gains⟩

theorem entered_of_play {w : Work} {out : Except Failure Stage} {s' : Scene} (hq : s.Quiet)
    (hx : s.store.lookup key = .ok x) (h : (b.enterCall key w).play s = (out, s')) :
    EnteredCall b key x s out s' := by
  obtain ⟨out', s₁, hp, he⟩ := b.enterCall_entered hq hx w
  rw [h] at hp
  cases hp
  exact he

theorem unread_of_play {w : Work} {out : Except Failure Stage} {s' : Scene} (hq : s.Quiet)
    {f : Failure} (hx : s.store.lookup key = .error f)
    (h : (b.enterCall key w).play s = (out, s')) : out = .error f ∧ s.Leads key [] [] s' := by
  obtain ⟨s₁, hb, hl⟩ := b.begin_of_unread hq hx
  have hp : (b.enterCall key w).play s = (.error f, s₁) := play_enterCall w hb
  rw [h] at hp
  cases hp
  exact ⟨rfl, hl⟩

theorem ended_ne_running {out : Except Failure Json} {o : Opening} :
    out.map Stage.ended ≠ .ok (.running o) := by
  intro h
  cases out <;> cases h

theorem begin_of_running {w : Work} {o : Opening} {s' : Scene} (h : (b.enterCall key w).play s = (.ok (.running o), s')) :
    ∃ s₁, (b.begin key).play s = (.ok (o, .ok ()), s₁) ∧ (w.start key).play s₁ = (.ok (), s') := by
  rcases hbegin : (b.begin key).play s with ⟨f | ⟨o', f | ⟨⟩⟩, s₁⟩ <;>
    rw [play_enterCall w hbegin, goOn] at h
  · cases h
  · rw [play_map] at h
    exact absurd (congrArg Prod.fst h) ended_ne_running
  · rcases hstart : (w.start key).play s₁ with ⟨f | ⟨⟩, s₂⟩ <;> rw [hstart] at h
    · dsimp only at h
      rw [play_map] at h
      exact absurd (congrArg Prod.fst h) ended_ne_running
    · cases h
      exact ⟨s₁, rfl, hstart⟩

/-- A call up to its first pause keeps records on top of the one that it read, and starts no function
but its own. -/
theorem EnteredCall.gains {out : Except Failure Stage} {s' : Scene}
    (h : EnteredCall b key x s out s') :
    (s'.starts = s.starts ∨ s'.starts = key :: s.starts) ∧
      ∃ rs, s.Gains key rs s' ∧ ∀ o, out = .ok (.running o) → o.Current (rs.head?.or x) := by
  cases h with
  | unbegun h =>
      obtain ⟨hstarts, rs, hg⟩ := h.gains
      exact ⟨.inl hstarts, rs, hg, fun _ ho => by cases ho⟩
  | rejected ha hl _ hfin =>
      obtain ⟨hstarts, rs', hg, -⟩ := hfin.gains (Record.version_permit.trans ha.head.1)
      exact ⟨.inl (hstarts.trans hl.starts), _, hl.gains.trans hg,
        fun o ho => absurd ho ended_ne_running⟩
  | failed ha hl hp hstarted hcon =>
      obtain ⟨hstarts, rs', hg, -⟩ := hcon.gains (Record.version_permit.trans ha.head.1)
      exact ⟨.inr (by rw [hstarts, hstarted.starts, hl.starts]), _,
        (hl.gains.trans hstarted.idle_store).trans hg, fun o ho => absurd ho ended_ne_running⟩
  | running ha hl hp hstarted =>
      refine ⟨.inr (by rw [hstarted.starts, hl.starts]), _, hl.gains.trans hstarted.idle_store,
        fun o ho => ?_⟩
      cases ho
      exact ha.current hp

theorem EnteredCall.loads {out : Except Failure Stage} {s' : Scene}
    (h : EnteredCall b key x s out s') :
    s'.store = s.store ∨ ∃ r, b.loaded s.now (.ok x) = .ok r := by
  cases h with
  | unbegun h =>
      cases h with
      | unloaded _ hl => exact .inl hl.store.lookup_nil
      | unchanged hr _ _ => exact .inr ⟨_, hr⟩
      | unannounced hr _ _ _ _ => exact .inr ⟨_, hr⟩
  | rejected ha _ _ _ => exact .inr ha.loads
  | failed ha _ _ _ _ => exact .inr ha.loads
  | running ha _ _ _ => exact .inr ha.loads

end KeyedBreaker.Breaker
