import KeyedBreaker.Proofs.Breaker.Carried
import KeyedBreaker.Proofs.Record.Ratio

namespace KeyedBreaker

namespace Record

structure Counted (r : Record) : Prop where
  failures : 0 ≤ r.failureCount
  calls : r.failureCount ≤ r.totalCount

variable {c : Config} {t : Instant} {status target : Status} {r e : Record}

theorem Entered.counted (h : Entered c target t r e) : e.Counted :=
  ⟨h.failureCount.ge, (h.failureCount.trans h.totalCount.symm).le⟩

theorem Counted.clearCounters (r : Record) : r.clearCounters.Counted := ⟨le_rfl, le_rfl⟩

theorem Counted.permit {key : String} (h : r.Counted) : (permit c r.status key t r).1.Counted :=
  permit_elim h (fun _ => Counted.clearCounters r) fun _ _ _ => ⟨le_rfl, le_rfl⟩

theorem Counted.countCall (h : r.Counted) : r.countCall.Counted :=
  ⟨h.failures, Int.le_add_one h.calls⟩

theorem Counted.countFailed (h : r.Counted) : r.countCall.countFailure.Counted :=
  ⟨Int.le_add_one h.failures, Int.add_le_add_right h.calls 1⟩

theorem Counted.settle {α : Type} (h : r.Counted) (result : Except Failure α) :
    (settle c status r result).1.Counted := by
  refine settle_elim ?_ (fun _ _ _ _ => h.countFailed) h.countCall fun _ _ _ => h
  cases status <;> exact ⟨h.countCall.failures, h.countCall.calls⟩

theorem Counted.failureRatio (h : r.Counted) : ∃ share, r.failureRatio = .ok share := by
  unfold Record.failureRatio
  split
  · exact ⟨none, rfl⟩
  · obtain ⟨x, hx⟩ := quotient_eq_ok h.failures h.calls
    rw [hx]
    exact ⟨some x, rfl⟩

end Record

namespace Breaker

variable {b : Breaker} {t : Instant} {r : Record}

theorem counted_carries (b : Breaker) (t : Instant) : b.Carries t Record.Counted where
  next h := ⟨h.failures, h.calls⟩
  fresh h := (entered_of_loaded h).counted
  changed _ hc := by
    obtain ⟨entered, hent, rfl⟩ := enter_eq_ok (change_eq_some hc).2
    exact ⟨hent.counted.failures, hent.counted.calls⟩
  permitted h := h.permit
  settled result h _ _ := h.settle result
  forced _ hf := by
    obtain ⟨entered, hent, rfl⟩ := forced_eq_ok hf
    exact ⟨hent.counted.failures, hent.counted.calls⟩

/-- The ends of a window and of a break that begin at this time are in range. -/
structure Spans (b : Breaker) (t : Instant) : Prop where
  windowEnd : ∃ u, t.addSeconds b.config.samplingDuration = .ok u
  breakEnd : ∃ u, t.addSeconds b.config.breakDuration = .ok u

theorem Spans.entering (h : b.Spans t) (target : Status) (r : Record) :
    ∃ e, b.enter target t r = .ok e := by
  obtain ⟨u, hu⟩ := h.breakEnd
  obtain ⟨v, hv⟩ := h.windowEnd
  cases target with
  | closed =>
      rw [enter, Record.entering, hv]
      exact ⟨_, rfl⟩
  | «open» =>
      rw [enter, Record.entering, hu]
      exact ⟨_, rfl⟩
  | halfOpen | isolated => exact ⟨_, rfl⟩

/-- Date arithmetic has answers: the window can be compared with the clock, and the ends of a new
window and of a break are in range. -/
structure InRange (b : Breaker) (t : Instant) (r : Record) : Prop where
  window : r.status = .closed → ∃ passed, r.windowExpired t = .ok passed
  breakEnd : ∃ u, t.addSeconds b.config.breakDuration = .ok u
  windowEnd : ∃ u, t.addSeconds b.config.samplingDuration = .ok u

theorem InRange.entering (h : b.InRange t r) (target : Status) :
    ∃ e, b.enter target t r = .ok e :=
  Spans.entering ⟨h.windowEnd, h.breakEnd⟩ target r

theorem InRange.change (h : b.InRange t r) (hd : ∃ o, Record.due b.config r.status t r = .ok o) :
    ∃ o, b.change t r = .ok o := by
  obtain ⟨due, hd⟩ := hd
  rw [Breaker.change, hd]
  cases due with
  | none => exact ⟨none, rfl⟩
  | some target =>
      obtain ⟨e, he⟩ := h.entering target
      dsimp only
      rw [he]
      exact ⟨_, rfl⟩

theorem InRange.renewed (h : b.InRange t r) (hr : r.Counted) (hs : r.status.rejects = false) :
    ∃ e, b.renewed t r = .ok e := by
  have hdue : ∃ o, Record.due b.config r.status t r = .ok o :=
    Record.due_eq_ok (fun hst => ⟨h.window hst, hr.failureRatio⟩) fun hst => by rw [hst] at hs; cases hs
  obtain ⟨o, ho⟩ := h.change hdue
  rw [Breaker.renewed, ho]
  exact ⟨_, rfl⟩

end Breaker

end KeyedBreaker
