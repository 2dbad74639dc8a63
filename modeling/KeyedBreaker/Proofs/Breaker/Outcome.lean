import KeyedBreaker.Proofs.Breaker.Visit
import KeyedBreaker.Proofs.Record.Answerable
import KeyedBreaker.Proofs.Store.Mild

namespace KeyedBreaker

namespace FailureClass

theorem isA_derived (name : String) (parent d : FailureClass) :
    (derived name parent).isA d = (d == derived name parent || parent.isA d) := by
  rw [isA, depth, lineage, parents, List.flatMap_singleton, List.contains_cons, isA]

theorem isA_store_of_isA_stale {c : FailureClass} (h : c.isA .stale = true) :
    c.isA .store = true := by
  induction c with
  | derived name parent ih =>
      rw [isA_derived, Bool.or_eq_true] at h ⊢
      exact .inr (ih (h.resolve_left fun he => by cases eq_of_beq he))
  | _ =>
      revert h
      decide

end FailureClass

def Failure.isConflict (f : Failure) : Bool := f.isA .stale

namespace Breaker

def asStore (key operation : String) (f : Failure) : Failure :=
  if f.isA .store then f else .storeFrom key operation f

theorem isA_asStore (key operation : String) (f : Failure) :
    (asStore key operation f).isA .store = true := by
  unfold asStore
  split
  · assumption
  · rfl

theorem isConflict_asStore (key operation : String) (f : Failure) :
    (asStore key operation f).isConflict = f.isConflict := by
  unfold asStore
  split
  · rfl
  · rename_i hstore
    have hstale : f.isConflict = false :=
      Bool.eq_false_iff.2 fun hf => hstore (FailureClass.isA_store_of_isA_stale hf)
    rw [hstale]
    rfl

end Breaker

open Act Breaker

namespace Breaker

variable {b : Breaker} {s s' : Scene} {key : String} {x : Option Record} {r e : Record}
  {f : Failure}

theorem exists_play_eq {α : Type} {a : Act α} {out : Except Failure α} (h : (a.play s).1 = out) :
    ∃ s', a.play s = (out, s') := ⟨_, Prod.ext h rfl⟩

theorem play_asStoreFailure_error {α : Type} {operation : String} {a : Act α}
    (h : a.play s = (.error f, s')) (hf : f.isOrdinary = true) :
    (asStoreFailure key operation a).play s = (.error (asStore key operation f), s') := by
  rw [asStoreFailure, play_tryCatch_error s h, asStore]
  simp only [hf, Bool.not_true, Bool.or_false]
  rfl

theorem play_load_of_unread (b : Breaker) (h : (readRecord key).play s = (.error f, s'))
    (hf : f.isOrdinary = true) : (b.load key).play s = (.error (asStore key "get" f), s') :=
  play_bind_error s (play_asStoreFailure_error h hf) _

theorem alike_of_readRecord {out : Except Failure (Option Record)}
    (h : (readRecord key).play s = (out, s')) : s.Alike s' := by
  obtain ⟨s₁, ha, hp | ⟨f, hp⟩⟩ := readRecord_cases key s <;> rw [h] at hp <;> cases hp <;> exact ha

theorem lookup_of_readRecord (h : (readRecord key).play s = (.ok x, s')) :
    s.store.lookup key = .ok x := by
  obtain ⟨s₁, ha, hp | ⟨f, hp⟩⟩ := readRecord_cases key s <;> rw [h] at hp
  · exact (congrArg Prod.fst hp).symm
  · cases hp

theorem play_load_of_read (b : Breaker) (h : (readRecord key).play s = (.ok x, s')) :
    (b.load key).play s = (b.loaded s.now (.ok x), s') := by
  have hread : (asStoreFailure key "get" (readRecord key)).play s = (.ok x, s') :=
    play_tryCatch_ok s h _
  rw [load, play_bind_ok s hread]
  cases x with
  | some r => rfl
  | none =>
      dsimp only
      rw [play_bind_ok s' (play_now s'), play_ofTime, (alike_of_readRecord h).now]
      rfl

theorem alike_of_writeRecord (h : (writeRecord key r).play s = (.error f, s')) : s.Alike s' := by
  obtain ⟨s₁, ⟨y, -, -, hp, -⟩ | ⟨g, hp, ha⟩⟩ := writeRecord_cases key r s <;> rw [h] at hp
  · cases hp
  · cases hp
    exact ha

def saved (key : String) (r : Record) : Except Failure Record → Except Failure Record
  | .ok e => .ok e
  | .error f => if f.isConflict then .ok r else .error (asStore key "set" f)

theorem play_save (b : Breaker)
    (hw : ∀ f, ((writeRecord key r).play s).1 = .error f → f.isOrdinary = true) :
    ((b.save key r).play s).1 = saved key r ((writeRecord key r).play s).1 := by
  rcases hp : (writeRecord key r).play s with ⟨w, s₁⟩
  rw [hp] at hw
  cases w with
  | ok e => exact congrArg Prod.fst (play_tryCatch_ok s (play_tryCatch_ok s hp _) _)
  | error f =>
      have hwrite : (write key r).play s = (.error (asStore key "set" f), s₁) :=
        play_asStoreFailure_error hp (hw f rfl)
      rw [save, play_tryCatch_error s hwrite, saved, ← isConflict_asStore key "set" f,
        Failure.isConflict]
      split <;> rfl

theorem play_save_failed (b : Breaker) (h : (writeRecord key r).play s = (.error f, s'))
    (hf : f.isOrdinary = true) (hc : f.isConflict = false) :
    (b.save key r).play s = (.error (asStore key "set" f), s') := by
  have hwrite : (write key r).play s = (.error (asStore key "set" f), s') :=
    play_asStoreFailure_error h hf
  rw [← isConflict_asStore key "set" f, Failure.isConflict] at hc
  rw [save, play_tryCatch_error s hwrite, hc]
  rfl

theorem of_saved_error {w : Except Failure Record} (h : saved key r w = .error f) :
    ∃ g, w = .error g ∧ g.isConflict = false ∧ f = asStore key "set" g := by
  unfold saved at h
  split at h
  · cases h
  · next g =>
    cases hg : g.isConflict with
    | true => simp [hg] at h
    | false =>
        rw [hg] at h
        cases h
        exact ⟨g, rfl, hg, rfl⟩

/-- The record under whose rules a call is made: the one that was read, where it owes no transition,
and otherwise the one after the transition, which was written or gave way to a conflicting write. -/
inductive Reached (b : Breaker) (key : String) (s : Scene) : Record → Prop
  | unchanged {x r s₁} : (readRecord key).play s = (.ok x, s₁) → b.loaded s.now (.ok x) = .ok r →
      b.change s.now r = .ok none → Reached b key s r
  | changed {x r target e e' s₁} : (readRecord key).play s = (.ok x, s₁) →
      b.loaded s.now (.ok x) = .ok r → b.change s.now r = .ok (some (target, e)) →
      saved key e ((writeRecord key e).play s₁).1 = .ok e' → Reached b key s e'

theorem begin_of_reached (hb : b.Polite) (hm : s.Mild) (h : b.Reached key s r) :
    ((b.begin key).play s).1 = .ok (b.opening key s.now s.monotonic r,
      (Record.permit b.config r.status key s.now r).2) := by
  cases h with
  | @unchanged x r s₁ hread hl hc =>
      have ha := alike_of_readRecord hread
      have hload := b.play_load_of_read hread
      rw [hl] at hload
      have hadvance : (b.advance key r true).play s₁ = (.ok r, s₁) :=
        advance_of_none (by rw [ha.now, hc])
      rw [begin, play_bind_ok s hload, play_bind_ok s₁ hadvance, begin_tail, ha.now, ha.monotonic]
  | @changed x r₀ target e _ s₁ hread hl hc hs =>
      have ha := alike_of_readRecord hread
      have hload := b.play_load_of_read hread
      rw [hl] at hload
      have hm₁ := (readRecord_mildly key s hm).1
      rw [hread] at hm₁
      obtain ⟨s₂, hsave⟩ := exists_play_eq (b.play_save (writeRecord_mildly key e s₁ hm₁).2.1)
      rw [hs] at hsave
      obtain ⟨out, s₃, hannounce, hy, -⟩ := b.announce_then r₀.status target r s₂ key
      have hadvance : (b.advance key r₀ true).play s₁ = (out, s₃) := by
        rw [advance_of_some (by rw [ha.now, hc]), if_pos rfl, play_bind_ok s₁ hsave]
        exact hannounce
      rw [hy.of_polite hb] at hadvance
      have hclock := keeps_advance b key sameClock_steady r₀ true s₁
      rw [hadvance] at hclock
      rw [begin, play_bind_ok s hload, play_bind_ok s₁ hadvance, begin_tail, hclock.1, hclock.2,
        ha.now, ha.monotonic]

def lastWrite (b : Breaker) (key : String) (r : Record) (s : Scene) : Except Failure Record :=
  match (b.advance key r false).play s with
  | (.ok e, s') => ((writeRecord key e).play s').1
  | (.error f, _) => .error f

def bothFailed (key : String) (called written : Failure) : Failure :=
  .group ("circuit_breaker: " ++ key ++ " call and state write both failed") [called, written]

def persisted (key : String) (called : Option Failure) :
    Except Failure Record → Except Failure Unit
  | .ok _ => .ok ()
  | .error f => .error (called.elim f (bothFailed key · f))

/-- The answer of a call with this result, by how its last write comes out: a failure of the store,
other than a conflict, takes the place of a value and joins a failure. -/
def answer (key : String) (result : Except Failure Json) :
    Except Failure Record → Except Failure Json
  | .ok _ => result
  | .error f =>
    if f.isConflict then result
    else match result with
      | .ok _ => .error (asStore key "set" f)
      | .error e => .error (bothFailed key e (asStore key "set" f))

theorem isA_store_of_saved {w : Except Failure Record} (h : saved key r w = .error f) :
    f.isA .store = true := by
  obtain ⟨g, -, -, rfl⟩ := of_saved_error h
  exact isA_asStore key "set" g

theorem persist_of_saved {called : Option Failure} {out : Except Failure Record}
    (h : (b.save key r).play s = (out, s')) (hout : ∀ f, out = .error f → f.isA .store = true) :
    (b.persist key r called).play s = (persisted key called out, s') := by
  cases out with
  | ok e => exact persist_of_save h
  | error f =>
      have hd : (discard (b.save key r) : Act Unit).play s = (.error f, s') := by
        rw [play_discard, h]
        rfl
      rw [persist, play_tryCatch_error s hd]
      cases called with
      | none => rfl
      | some e =>
          dsimp only
          rw [if_pos (hout f rfl)]
          rfl

theorem play_tell (hb : b.Polite) (o : Occurrence) (s : Scene) :
    ∃ s', (b.tell o).play s = (.ok (), s') := by
  obtain ⟨out, es, hu, -, hy⟩ := b.tell_utters o
  rw [hy.of_polite hb] at hu
  exact ⟨_, hu s⟩

theorem persist_then_tell {w : Except Failure Record} {s₁ s₂ : Scene} (hb : b.Polite)
    (hsave : (b.save key e).play s₁ = (saved key e w, s₂)) (result : Except Failure Json)
    (called : Option Failure) (occurrence : Occurrence) :
    ((do
      b.persist key e called
      b.tell occurrence
      ofExcept result : Act Json).play s₁).1 =
        (persisted key called (saved key e w)).bind fun _ => result := by
  have hp : (b.persist key e called).play s₁ = (persisted key called (saved key e w), s₂) :=
    persist_of_saved hsave fun f hf => isA_store_of_saved hf
  cases hsaved : persisted key called (saved key e w) with
  | ok u =>
      rw [hsaved] at hp
      obtain ⟨s₃, ht⟩ := play_tell hb occurrence s₂
      rw [play_bind_ok s₁ hp, play_bind_ok s₂ ht, play_ofExcept]
      rfl
  | error f =>
      rw [hsaved] at hp
      exact congrArg Prod.fst (play_bind_error s₁ hp _)

theorem finish_answer (hb : b.Polite) (hm : s.Mild) (o : Opening) (result : Except Failure Json)
    (hr : ∀ f, result = .error f → f.isOrdinary = true) (he : b.renewed s.now o.record = .ok e) :
    ((b.finish key o result).play s).1 = answer key result (b.lastWrite key o.record s) := by
  obtain ⟨out, s₁, hadvance, hl, h⟩ := b.advance_unsaved key o.record s
  have hout : out = .ok e := by
    rcases h with ⟨f, hf, -⟩ | ⟨e', he', rfl⟩ | ⟨-, f, -, -, hn, -⟩
    · rw [he] at hf
      cases hf
    · rw [he] at he'
      cases he'
      rfl
    · exact absurd hb hn
  subst hout
  have hm₁ : s₁.Mild := fun access f hf => hm access f (hl.faults ▸ hf)
  obtain ⟨s₂, hsave⟩ := exists_play_eq (b.play_save (writeRecord_mildly key e s₁ hm₁).2.1)
  rw [lastWrite, hadvance]
  dsimp only
  generalize ((writeRecord key e).play s₁).1 = w at hsave
  have htail := persist_then_tell hb hsave result
  cases result with
  | ok v =>
      rw [finish, play_bind_ok s (play_elapsed o s), play_bind_ok s hadvance]
      refine (htail none _).trans ?_
      cases w with
      | ok e' => rfl
      | error f => cases hf : f.isConflict <;> simp only [saved, answer, hf] <;> rfl
  | error g =>
      rw [finish]
      simp only [hr g rfl, if_true]
      rw [play_bind_ok s (play_elapsed o s), play_bind_ok s hadvance]
      refine (htail (some g) _).trans ?_
      cases w with
      | ok e' => rfl
      | error f => cases hf : f.isConflict <;> simp only [saved, answer, hf] <;> rfl

end Breaker

namespace Visit

structure Barred (v : Visit) (key : String) (s : Scene) : Prop where
  result : ∃ f, (v.run key s).1 = .error f ∧ f.isA .store = true
  starts : (v.run key s).2.starts = (v.before s).starts
  store : (v.run key s).2.store = (v.before s).store
  hearings : (v.run key s).2.hearings = (v.before s).hearings

/-- How a call comes out. -/
inductive Outcome (v : Visit) (key : String) (s : Scene) : Prop
  | unread {f s₁} : (readRecord key).play (v.before s) = (.error f, s₁) → v.Barred key s →
      Outcome v key s
  | unwritten {x r target e f s₁} : (readRecord key).play (v.before s) = (.ok x, s₁) →
      v.breaker.loaded (v.before s).now (.ok x) = .ok r →
      v.breaker.change (v.before s).now r = .ok (some (target, e)) →
      ((writeRecord key e).play s₁).1 = .error f → f.isConflict = false → v.Barred key s →
      Outcome v key s
  /-- The circuit turns the call away, and its function does not start. -/
  | rejected {r f} : v.breaker.Reached key (v.before s) r → r.Rejects key f →
      (v.run key s).2.starts = (v.before s).starts →
      (v.run key s).1 = answer key (.error f)
        (v.breaker.lastWrite key r ((v.breaker.begin key).play (v.before s)).2) →
      Outcome v key s
  /-- The function starts once, and gives a value or fails ordinarily. -/
  | ended {r} : v.breaker.Reached key (v.before s) r → r.status.rejects = false →
      (v.entry key s).2.starts = key :: (v.before s).starts →
      (v.run key s).2.starts = (v.ending key s).starts →
      (∀ f, v.result = .error f → f.isOrdinary = true) →
      (v.run key s).1 = answer key v.result
        (v.breaker.lastWrite key (v.counted key s r) (v.ending key s)) →
      Outcome v key s
  /-- The function starts once, and is cancelled or aborts. -/
  | aborted {r f} : v.breaker.Reached key (v.before s) r → r.status.rejects = false →
      (v.entry key s).2.starts = key :: (v.before s).starts →
      v.result = .error f → f.isOrdinary = false → v.run key s = (.error f, v.ending key s) →
      Outcome v key s

/-- The dates and the share of failures that the call may have to compute are in range, and its times
can be compared with each other. -/
structure Computable (v : Visit) (key : String) (s : Scene) : Prop where
  windowEnd : ∃ u, (v.before s).now.addSeconds v.breaker.config.samplingDuration = .ok u
  breakEnd : ∃ u, (v.before s).now.addSeconds v.breaker.config.breakDuration = .ok u
  nextWindowEnd : ∃ u, (v.ending key s).now.addSeconds v.breaker.config.samplingDuration = .ok u
  nextBreakEnd : ∃ u, (v.ending key s).now.addSeconds v.breaker.config.breakDuration = .ok u
  clock : ∃ passed, (v.ending key s).now.reaches (v.before s).now = .ok passed
  stored : ∀ r, (v.before s).store.lookup key = .ok (some r) → r.Answerable (v.before s).now

variable {v : Visit} {key : String} {s : Scene} {x : Option Record} {r e : Record} {f : Failure}

theorem Computable.loaded (h : v.Computable key s)
    (hx : (v.before s).store.lookup key = .ok x) :
    ∃ r, v.breaker.loaded (v.before s).now (.ok x) = .ok r ∧ r.Answerable (v.before s).now := by
  cases x with
  | some r => exact ⟨r, rfl, h.stored r hx⟩
  | none =>
      obtain ⟨u, hu⟩ := h.windowEnd
      have he : Record.entering v.breaker.config .closed (v.before s).now {} =
          .ok { status := .closed, resetAt := some u } := by
        rw [Record.entering, hu]
        rfl
      exact ⟨_, by rw [Breaker.loaded, he]; rfl,
        Record.answerable_of_entering ⟨fun _ h => (by cases h), fun _ h => (by cases h)⟩ he⟩

theorem answerable_of_saved {t : Instant} (h : e.Answerable t)
    (hs : saved key e ((writeRecord key e).play s).1 = .ok r) : r.Answerable t := by
  obtain ⟨s', ⟨y, -, -, hp, -⟩ | ⟨g, hp, -⟩⟩ := writeRecord_cases key e s <;> rw [hp] at hs
  · cases hs
    exact h.next
  · unfold saved at hs
    dsimp only at hs
    split at hs
    · cases hs
      exact h
    · cases hs

theorem Computable.reached (h : v.Computable key s) (hr : v.breaker.Reached key (v.before s) r) :
    r.Answerable (v.before s).now := by
  cases hr with
  | unchanged hread hl _ =>
      obtain ⟨r', hl', ha⟩ := h.loaded (lookup_of_readRecord hread)
      rw [hl] at hl'
      cases hl'
      exact ha
  | changed hread hl hc hs =>
      obtain ⟨r', hl', ha⟩ := h.loaded (lookup_of_readRecord hread)
      rw [hl] at hl'
      cases hl'
      exact answerable_of_saved (answerable_of_change ha hc) hs

/-- A call that does not begin leaves the store, the functions and the listeners alone. -/
theorem barred_of_begin {s₁ : Scene} (h : (v.breaker.begin key).play (v.before s) = (.error f, s₁))
    (hf : f.isA .store = true) (hstore : s₁.store = (v.before s).store)
    (hhearings : SameHearings (v.before s) s₁) : v.Barred key s := by
  have hentry : v.entry key s = (.error f, s₁) := play_enterCall {} h
  have hrun : v.run key s = (.error f, s₁) := by rw [run, hentry]
  have hstarts := keeps_begin v.breaker key sameStarts_steady (v.before s)
  rw [h] at hstarts
  refine ⟨⟨f, ?_, hf⟩, ?_, ?_, ?_⟩ <;> rw [hrun]
  · exact hstarts
  · exact hstore
  · exact hhearings

theorem keeps_entry {R : Scene → Scene → Prop} (hR : BreakerSteady R)
    (hstart : ∀ s, R s (s.seeing [.started key])) : R (v.before s) (v.entry key s).2 := by
  have hbegin := keeps_begin v.breaker key hR (v.before s)
  rcases hp : (v.breaker.begin key).play (v.before s) with ⟨out, s₁⟩
  rw [hp] at hbegin
  rw [entry, play_enterCall {} hp]
  rcases out with f | ⟨o, f | ⟨⟩⟩
  · exact hbegin
  · rw [goOn, play_map]
    exact hR.trans hbegin (keeps_finish v.breaker key hR o (.error f) s₁)
  · exact hR.trans hbegin (hstart s₁)

theorem mild_entry (h : (v.before s).Mild) : (v.entry key s).2.Mild :=
  keeps_entry staysMild_steady (fun _ h => h) h

section

variable (hb : v.breaker.Polite) (hm : (v.before s).Mild) (hc : v.Computable key s)
include hb hm hc

theorem outcome_of_rejected (hr : v.breaker.Reached key (v.before s) r)
    (hp : Record.permit v.breaker.config r.status key (v.before s).now r = (r, .error f))
    (hrejects : r.Rejects key f) : v.Outcome key s := by
  have ha := hc.reached hr
  let b := v.breaker
  let o := b.opening key (v.before s).now (v.before s).monotonic r
  have hrecord : o.record = r := congrArg Prod.fst hp
  obtain ⟨s₁, hbegin⟩ := exists_play_eq (begin_of_reached hb hm hr)
  rw [hp] at hbegin
  have hclock := keeps_begin b key sameClock_steady (v.before s)
  have hmild := keeps_begin b key staysMild_steady (v.before s)
  have hstarts := keeps_begin b key sameStarts_steady (v.before s)
  rw [hbegin] at hclock hmild hstarts
  obtain ⟨e, he⟩ := renewed_of_timely (b := b) ha.toTimely (fun hs => (ha.share hs).now)
    hc.windowEnd hc.breakEnd
  have hordinary : ∀ g, (.error f : Except Failure Json) = .error g → g.isOrdinary = true := by
    intro g hg
    cases hg
    rcases hrejects with ⟨-, seconds, rfl⟩ | ⟨-, rfl⟩ <;> rfl
  have hanswer : ((b.finish key o (.error f)).play s₁).1 =
      answer key (.error f) (b.lastWrite key o.record s₁) :=
    finish_answer hb (hmild hm) o (.error f) hordinary (by rw [hclock.1, hrecord]; exact he)
  have hstarts' := keeps_finish b key sameStarts_steady o (.error f) s₁
  have hentry : v.entry key s = (Stage.ended <$> b.finish key o (.error f)).play s₁ :=
    play_enterCall {} hbegin
  have hrun : v.run key s = (b.finish key o (.error f)).play s₁ := by
    rw [run, hentry, play_map]
    rcases (b.finish key o (.error f)).play s₁ with ⟨_ | y, s'⟩ <;> rfl
  refine .rejected hr hrejects ?_ ?_
  · rw [hrun]
    exact hstarts'.trans hstarts
  · rw [hrun, hanswer, hrecord, hbegin]

variable (ht : v.breaker.config.Total)
  (hduring : (v.entry key s).2.Mild → (v.ending key s).Mild)
include ht hduring

theorem outcome_of_permitted (hr : v.breaker.Reached key (v.before s) r)
    (hp : (Record.permit v.breaker.config r.status key (v.before s).now r).2 = .ok ()) :
    v.Outcome key s := by
  have ha := hc.reached hr
  let b := v.breaker
  let o := b.opening key (v.before s).now (v.before s).monotonic r
  obtain ⟨s₁, hbegin⟩ := exists_play_eq (begin_of_reached hb hm hr)
  rw [hp] at hbegin
  have hstarts := keeps_begin b key sameStarts_steady (v.before s)
  rw [hbegin] at hstarts
  have hentry : v.entry key s = (.ok (.running o), s₁.seeing [.started key]) :=
    play_enterCall {} hbegin
  have hrun : v.run key s = (b.conclude key o v.result).play (v.ending key s) := by
    rw [run, hentry]
  have hstarted : (v.entry key s).2.starts = key :: (v.before s).starts := by
    rw [hentry, ← hstarts]
    rfl
  have hrejects := Record.rejects_of_permit hp
  by_cases habort : ∃ f, v.result = .error f ∧ f.isOrdinary = false
  · obtain ⟨f, hf, ho⟩ := habort
    refine .aborted hr hrejects hstarted hf ho ?_
    rw [hrun, hf, conclude_eq]
    simp only [Record.settle, ho]
    exact finish_of_not_ordinary b key _ ho _
  · have hordinary : ∀ f, v.result = .error f → f.isOrdinary = true := fun f hf =>
      Bool.of_not_eq_false fun ho => habort ⟨f, hf, ho⟩
    have hpermit := (ha.permit (c := b.config) key hc.windowEnd).1
    have hresult : (Record.settle b.config o.status o.record v.result).2 = v.result :=
      Record.settle_result (ht.judges _)
    have hclosed : (v.counted key s r).status = .closed →
        ∃ share, (v.counted key s r).failureRatio = .ok share := by
      intro hs
      have hsame : (v.counted key s r).status = r.status :=
        (Record.status_settle _).trans Record.status_permit
      rw [hsame] at hs
      exact (ha.share hs).permit_settle hs v.result
    obtain ⟨e, he⟩ := renewed_of_timely (b := b) ((hpermit.toTimely.later hc.clock).settle v.result)
      hclosed hc.nextWindowEnd hc.nextBreakEnd
    refine .ended hr hrejects hstarted ?_ hordinary ?_
    · rw [hrun]
      exact keeps_conclude b key sameStarts_steady o v.result _
    · rw [hrun, conclude_eq, hresult]
      exact finish_answer hb (hduring (mild_entry hm)) _ v.result hordinary he

/-- However the accesses to the store fail, a call comes out in one of five ways. -/
theorem call_outcome : v.Outcome key s := by
  have hreached : ∀ {r}, v.breaker.Reached key (v.before s) r → v.Outcome key s := by
    intro r hr
    obtain ⟨-, hp | ⟨f, hp, hrejects⟩⟩ :=
      (hc.reached hr).permit (c := v.breaker.config) key hc.windowEnd
    · exact outcome_of_permitted hb hm hc ht hduring hr hp
    · exact outcome_of_rejected hb hm hc hr hp hrejects
  have hmread := readRecord_mildly key (v.before s) hm
  have hload := keeps_load v.breaker key sameHearings_steady.toAccessSteady (v.before s)
  rcases hread : (readRecord key).play (v.before s) with ⟨f | x, s₁⟩
  · have hf := hmread.2.1 f (by rw [hread])
    have hplay := v.breaker.play_load_of_unread hread hf
    rw [hplay] at hload
    exact .unread hread (barred_of_begin (play_bind_error _ hplay _) (isA_asStore _ _ _)
      (alike_of_readRecord hread).store hload)
  · obtain ⟨r, hl, ha⟩ := hc.loaded (lookup_of_readRecord hread)
    have hplay := v.breaker.play_load_of_read hread
    rw [hl] at hplay
    rw [hplay] at hload
    rw [hread] at hmread
    obtain ⟨o, ho⟩ := change_of_timely (b := v.breaker) ha.toTimely
      (fun hs => (ha.share hs).now) hc.windowEnd hc.breakEnd
    cases o with
    | none => exact hreached (.unchanged hread hl ho)
    | some d =>
        obtain ⟨target, e⟩ := d
        rcases hwrite : (writeRecord key e).play s₁ with ⟨w, s₂⟩
        cases hs : saved key e w with
        | ok e' => exact hreached (.changed hread hl ho (by rw [hwrite]; exact hs))
        | error g =>
            have hw := writeRecord_mildly key e s₁ hmread.1
            obtain ⟨f, rfl, hconflict, -⟩ := of_saved_error hs
            rw [hwrite] at hw
            have hsave := play_save_failed v.breaker hwrite (hw.2.1 f rfl) hconflict
            have hkept := keeps_save v.breaker key sameHearings_steady e s₁
            rw [hsave] at hkept
            have ha₁ := alike_of_readRecord hread
            have hadvance : (v.breaker.advance key r true).play s₁ =
                (.error (asStore key "set" f), s₂) := by
              rw [advance_of_some (by rw [ha₁.now, ho]), if_pos rfl, play_bind_error s₁ hsave]
            have hbegin : (v.breaker.begin key).play (v.before s) =
                (.error (asStore key "set" f), s₂) := by
              rw [begin, play_bind_ok _ hplay, play_bind_error s₁ hadvance]
            exact .unwritten hread hl ho (by rw [hwrite]) hconflict
              (barred_of_begin hbegin (isA_asStore _ _ _)
                ((alike_of_writeRecord hwrite).store.trans ha₁.store)
                (sameHearings_steady.trans hload hkept))

end

def unwritableScene : Scene where
  now := Schedule.beginning
  store := .memory []
  faults := fun
    | .write => [.raise (.plain .system (some "full"))]
    | _ => []

def failingVisit : Visit where
  breaker := {}
  result := .error (.plain .value (some "bad"))

theorem call_outcome_of_lost_write : failingVisit.Outcome "k" unwritableScene := by
  have hend : (failingVisit.ending "k" unwritableScene).now = Schedule.beginning := by
    decide +kernel
  have hmild : unwritableScene.Mild := by
    intro access f hf
    cases access with
    | write =>
        cases List.mem_singleton.1 hf
        rfl
    | _ => cases hf
  have hempty : (failingVisit.before unwritableScene).store.lookup "k" = .ok none := rfl
  refine call_outcome nofun hmild ⟨?_, ?_, ?_, ?_, ?_, fun r hr => ?_⟩
    (Config.total_of_no_classifier rfl) ?_
  · exact ⟨⟨10000000, none, by decide⟩, by decide +kernel⟩
  · exact ⟨⟨5000000, none, by decide⟩, by decide +kernel⟩
  · rw [hend]
    exact ⟨⟨10000000, none, by decide⟩, by decide +kernel⟩
  · rw [hend]
    exact ⟨⟨5000000, none, by decide⟩, by decide +kernel⟩
  · rw [hend]
    exact ⟨true, Instant.reaches_self _⟩
  · rw [hempty] at hr
    cases hr
  · rw [ending, show failingVisit.during = id from rfl]
    exact fun h => h

def disturbedVisit : Visit where
  breaker := { listeners := [.recording (some (.plain .abort none)) [.succeeded]] }
  result := .ok .null

def beyondReckoning : Record where
  failureCount := 10 ^ 400
  totalCount := 1
  resetAt := some ⟨5000000, none, by decide⟩

/-- Neither with a listener that aborts nor with a stored share of failures that is not finite a call
comes out so: without any fault of the store it loses its value, or fails before it can be turned
away. -/
theorem call_disturbed :
    ((disturbedVisit.run "k" emptyScene).1 matches .error (.plain .abort none)) = true ∧
      ((failingVisit.run "k" { emptyScene with store := .memory [("k", beyondReckoning)] }).1 matches
        .error .ratioRange) = true := by
  decide +kernel

end Visit

end KeyedBreaker
