import KeyedBreaker.Record.Transition
import Mathlib.Tactic

namespace KeyedBreaker

theorem Failure.isOrdinary_time (e : TimeError) : (Failure.time e).isOrdinary = true := by
  cases e <;> rfl

/-- The classifier tells of the failure of a call, if that is an ordinary one, whether it counts. -/
def Config.Judges {α : Type} (c : Config) (result : Except Failure α) : Prop :=
  ∀ f, result = .error f → f.isOrdinary = true → ∃ counted, c.counts f = .ok counted

theorem Config.judges_of_counts {α : Type} {c : Config} {f : Failure} {counted : Bool}
    (h : c.counts f = .ok counted) : c.Judges (.error f : Except Failure α) := by
  rintro g ⟨⟩ -
  exact ⟨counted, h⟩

theorem exists_of_bind_eq_ok {ε α β : Type} {x : Except ε α} {f : α → Except ε β} {y : β}
    (h : (x >>= f) = .ok y) : ∃ a, x = .ok a ∧ f a = .ok y := by
  cases x with
  | error e => cases h
  | ok a => exact ⟨a, rfl, h⟩

namespace Record

variable {α : Type} {c : Config} {status target : Status} {t : Instant} {r e : Record} {key : String}

structure Entered (c : Config) (target : Status) (t : Instant) (r e : Record) : Prop where
  status : e.status = target
  failureCount : e.failureCount = 0
  totalCount : e.totalCount = 0
  successCount : e.successCount = 0
  previousStatus : e.previousStatus = r.previousStatus
  version : e.version = r.version
  closeAt : target ≠ .open → e.closeAt = r.closeAt
  resetAt : target ≠ .closed → e.resetAt = r.resetAt
  breakEnds : target = .open → ∃ u, t.addSeconds c.breakDuration = .ok u ∧ e.closeAt = some u
  windowEnds : target = .closed → ∃ u, t.addSeconds c.samplingDuration = .ok u ∧ e.resetAt = some u

theorem entered_of_entering (h : entering c target t r = .ok e) : Entered c target t r e := by
  cases target with
  | closed =>
      obtain ⟨u, hu, he⟩ := exists_of_bind_eq_ok h
      cases he
      exact ⟨rfl, rfl, rfl, rfl, rfl, rfl, fun _ => rfl, fun hn => absurd rfl hn, fun h => (by cases h),
        fun _ => ⟨u, hu, rfl⟩⟩
  | «open» =>
      obtain ⟨u, hu, he⟩ := exists_of_bind_eq_ok h
      cases he
      exact ⟨rfl, rfl, rfl, rfl, rfl, rfl, fun hn => absurd rfl hn, fun _ => rfl,
        fun _ => ⟨u, hu, rfl⟩, fun h => by cases h⟩
  | halfOpen | isolated =>
      cases h
      exact ⟨rfl, rfl, rfl, rfl, rfl, rfl, fun _ => rfl, fun _ => rfl, fun h => (by cases h),
        fun h => by cases h⟩

theorem opens_of_running (h : r.windowExpired t = .ok false) :
    opens c t r = if r.failureCount < c.failureThreshold then .ok false
      else r.failureRatio.map fun share => share.any fun x => !decide (x < c.failureRatio) := by
  unfold opens
  rw [h]
  change (if r.failureCount < c.failureThreshold then _ else _) = _
  split
  · rfl
  · cases r.failureRatio with
    | error f => rfl
    | ok share => cases share <;> rfl

theorem opens_of_expired (h : r.windowExpired t = .ok true) : opens c t r = .ok false := by
  rw [opens, h]
  rfl

theorem opens_eq_ok (hw : ∃ passed, r.windowExpired t = .ok passed)
    (hshare : ∃ share, r.failureRatio = .ok share) : ∃ o, opens c t r = .ok o := by
  obtain ⟨passed, hw⟩ := hw
  obtain ⟨share, hshare⟩ := hshare
  cases passed with
  | true => exact ⟨false, opens_of_expired hw⟩
  | false =>
      rw [opens_of_running hw, hshare]
      split <;> exact ⟨_, rfl⟩

theorem due_eq_ok
    (hclosed : r.status = .closed → (∃ passed, r.windowExpired t = .ok passed) ∧
      ∃ share, r.failureRatio = .ok share)
    (hopen : r.status = .open → ∀ u, r.closeAt = some u → ∃ passed, t.reaches u = .ok passed) :
    ∃ o, due c r.status t r = .ok o := by
  cases hs : r.status with
  | closed =>
      obtain ⟨hw, hshare⟩ := hclosed hs
      obtain ⟨o, ho⟩ := opens_eq_ok (c := c) hw hshare
      rw [due, ho]
      cases o <;> exact ⟨_, rfl⟩
  | «open» =>
      rw [due]
      split
      · exact ⟨_, rfl⟩
      · obtain ⟨passed, hp⟩ := hopen hs _ ‹_›
        rw [hp]
        cases passed <;> exact ⟨_, rfl⟩
  | halfOpen =>
      rw [due]
      split
      · exact ⟨_, rfl⟩
      · split <;> exact ⟨_, rfl⟩
  | isolated => exact ⟨_, rfl⟩

theorem due_closed : due c .closed t r = .ok none ↔ opens c t r = .ok false := by
  rw [due]
  cases ho : opens c t r with
  | error f => exact ⟨fun h => (by cases h), fun h => (by cases h)⟩
  | ok o =>
      cases o with
      | false => exact ⟨fun _ => rfl, fun _ => rfl⟩
      | true => exact ⟨fun h => (by cases h), fun h => (by cases h)⟩

/-- Why a transition is owed: the failures of a closed circuit have reached the limits, the break of an open
one has ended, a probe of a half-open one has failed, or enough of them went well. -/
inductive Owes (c : Config) (t : Instant) (r : Record) : Status → Status → Prop
  | opens : opens c t r = .ok true → Owes c t r .closed .open
  | probes : (∀ u, r.closeAt = some u → t.reaches u = .ok true) → Owes c t r .open .halfOpen
  | reopens : 0 < r.failureCount → Owes c t r .halfOpen .open
  | closes : ¬ 0 < r.failureCount → c.successThreshold ≤ r.successCount → Owes c t r .halfOpen .closed

theorem owes_of_due (h : due c status t r = .ok (some target)) : Owes c t r status target := by
  cases status with
  | closed =>
      obtain ⟨o, ho, h⟩ := exists_of_bind_eq_ok h
      cases o <;> cases h
      exact .opens ho
  | «open» =>
      rw [due] at h
      split at h
      · cases h
        exact .probes fun u hu => absurd (hu.symm.trans ‹_›) (Option.some_ne_none u)
      · rename_i u hu
        cases hr : t.reaches u with
        | error e => rw [hr] at h; cases h
        | ok passed =>
            rw [hr] at h
            cases passed <;> cases h
            refine .probes fun u' hu' => ?_
            rw [hu] at hu'
            cases hu'
            exact hr
  | halfOpen =>
      rw [due] at h
      split at h
      · cases h
        exact .reopens ‹_›
      · split at h <;> cases h
        exact .closes ‹_› ‹_›
  | isolated => cases h

theorem due_ne (h : due c status t r = .ok (some target)) : status ≠ target := by
  cases owes_of_due h <;> decide

theorem rollWindow_cases (r : Record) (t : Instant) (seconds : Binary64) :
    (∃ e, r.rollWindow t seconds = (r, .error e)) ∨ r.rollWindow t seconds = (r, .ok ()) ∨
      (∃ e, r.rollWindow t seconds = (r.clearCounters, .error e)) ∨
      ∃ u, t.addSeconds seconds = .ok u ∧
        r.rollWindow t seconds = ({ r.clearCounters with resetAt := some u }, .ok ()) := by
  unfold rollWindow
  split
  · exact .inl ⟨_, rfl⟩
  · exact .inr (.inl rfl)
  · split
    · exact .inr (.inr (.inl ⟨_, rfl⟩))
    · exact .inr (.inr (.inr ⟨_, ‹_›, rfl⟩))

/-- What holds of the record with which a function starts: of a closed circuit the counters may have been
cleared, and a new window begun. -/
theorem permit_elim {P : Record → Prop} (same : P r) (cleared : status = .closed → P r.clearCounters)
    (begun : status = .closed → ∀ u, t.addSeconds c.samplingDuration = .ok u →
      P { r.clearCounters with resetAt := some u }) :
    P (permit c status key t r).1 := by
  cases status with
  | closed =>
      rw [permit]
      obtain ⟨e, h⟩ | h | ⟨e, h⟩ | ⟨u, hu, h⟩ := r.rollWindow_cases t c.samplingDuration <;> rw [h]
      · exact same
      · exact same
      · exact cleared rfl
      · exact begun rfl u hu
  | «open» =>
      rw [permit]
      split <;> exact same
  | halfOpen | isolated => exact same

theorem version_permit : (permit c status key t r).1.version = r.version :=
  permit_elim (P := fun e => e.version = r.version) rfl (fun _ => rfl) fun _ _ _ => rfl

theorem status_permit : (permit c r.status key t r).1.status = r.status :=
  permit_elim (P := fun e => e.status = r.status) rfl (fun _ => rfl) fun _ _ _ => rfl

theorem rejects_of_permit (h : (permit c r.status key t r).2 = .ok ()) : r.status.rejects = false := by
  cases hs : r.status with
  | closed | halfOpen => rfl
  | «open» =>
      rw [hs] at h
      unfold permit at h
      dsimp only at h
      split at h <;> cases h
  | isolated => rw [hs] at h; cases h

theorem isOrdinary_of_permit {f : Failure}
    (h : (permit c status key t r).2 = .error f) : f.isOrdinary = true := by
  cases status with
  | closed =>
      obtain ⟨e, hr⟩ | hr | ⟨e, hr⟩ | ⟨u, -, hr⟩ := r.rollWindow_cases t c.samplingDuration <;>
        · simp only [permit, hr] at h
          cases h <;> exact Failure.isOrdinary_time _
  | «open» =>
      unfold permit at h
      dsimp only at h
      split at h
      · cases h
        rfl
      · cases h
        exact Failure.isOrdinary_time _
  | halfOpen => cases h
  | isolated =>
      cases h
      rfl

/-- What holds of the record however a result is counted: as a call that went well or does not count as a
failure, as a failure, as a call that the classifier has no answer for, or not at all. -/
theorem settle_elim {P : Record → Prop} {result : Except Failure α} (good : P (countGood status r))
    (failed : ∀ f, result = .error f → f.isOrdinary = true → c.counts f = .ok true →
      P r.countCall.countFailure)
    (unjudged : P r.countCall)
    (void : ∀ f, result = .error f → f.isOrdinary = false → P r) : P (settle c status r result).1 := by
  unfold settle
  split
  · exact good
  · rename_i f
    split
    · split
      · exact failed f rfl ‹_› ‹_›
      · exact good
      · exact unjudged
    · exact void f rfl (Bool.eq_false_iff.2 ‹_›)

/-- Counting a result changes nothing but the counters. -/
theorem settle_counters (result : Except Failure α) :
    ∃ failures calls successes, (settle c status r result).1 =
      { r with failureCount := failures, totalCount := calls, successCount := successes } := by
  refine settle_elim (P := fun e => ∃ failures calls successes, e = { r with
    failureCount := failures, totalCount := calls, successCount := successes }) ?_ ?_ ?_ ?_
  · cases status <;> exact ⟨_, _, _, rfl⟩
  · exact fun _ _ _ _ => ⟨_, _, _, rfl⟩
  · exact ⟨_, _, _, rfl⟩
  · exact fun _ _ _ => ⟨_, _, _, rfl⟩

theorem settle_result_cases (c : Config) (status : Status) (r : Record) (result : Except Failure α) :
    (settle c status r result).2 = result ∧ c.Judges result ∨
      ∃ f g, result = .error f ∧ f.isOrdinary = true ∧ c.counts f = .error g ∧
        (settle c status r result).2 = .error g := by
  cases result with
  | ok v => exact .inl ⟨rfl, fun f hf => by cases hf⟩
  | error f =>
      unfold settle
      dsimp only
      split
      · rename_i hf
        cases hc : c.counts f with
        | ok counted =>
            refine .inl ⟨by cases counted <;> rfl, fun g hg _ => ⟨counted, ?_⟩⟩
            cases hg
            exact hc
        | error g => exact .inr ⟨f, g, rfl, hf, hc, rfl⟩
      · rename_i hf
        refine .inl ⟨rfl, fun g hg hg' => ?_⟩
        cases hg
        exact absurd hg' hf

theorem settle_result {result : Except Failure α} (h : c.Judges result) :
    (settle c status r result).2 = result := by
  obtain ⟨he, -⟩ | ⟨f, g, hf, ho, hc, -⟩ := settle_result_cases c status r result
  · exact he
  · obtain ⟨counted, hcounted⟩ := h f hf ho
    rw [hcounted] at hc
    cases hc

theorem settle_of_not_ordinary {f : Failure} (h : f.isOrdinary = false) :
    settle c status r (.error f : Except Failure α) = (r, .error f) := by
  rw [settle, h]
  rfl

theorem status_settle (result : Except Failure α) :
    (settle c status r result).1.status = r.status := by
  obtain ⟨failures, calls, successes, h⟩ := settle_counters result
  rw [h]

theorem version_settle (result : Except Failure α) :
    (settle c status r result).1.version = r.version := by
  obtain ⟨failures, calls, successes, h⟩ := settle_counters result
  rw [h]

end Record

end KeyedBreaker
