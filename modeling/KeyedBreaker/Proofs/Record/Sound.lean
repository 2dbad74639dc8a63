import KeyedBreaker.Proofs.Calendar.Order
import KeyedBreaker.Proofs.Record.Transition
import KeyedBreaker.Proofs.Store.View

namespace KeyedBreaker

structure Limits.Accepted (l : Limits) : Prop where
  successThreshold : 1 ≤ l.successThreshold
  failureThreshold : 1 ≤ l.failureThreshold
  breakDuration : ¬ l.breakDuration < Binary64.zero
  samplingDuration : ¬ l.samplingDuration ≤ Binary64.zero
  failureRatio : Binary64.zero ≤ l.failureRatio ∧ l.failureRatio ≤ Binary64.ofInt 1

theorem Limits.check_eq_ok_iff {l : Limits} : l.check = .ok () ↔ l.Accepted := by
  refine ⟨fun h => ?_, fun h => ?_⟩
  · unfold check at h
    split_ifs at h with hsuccesses hfailures hbreak hsampling hratio
    exact ⟨Int.not_lt.1 hsuccesses, Int.not_lt.1 hfailures, hbreak, hsampling, hratio⟩
  · rw [check, if_neg (Int.not_lt.2 h.successThreshold), if_neg (Int.not_lt.2 h.failureThreshold),
      if_neg h.breakDuration, if_neg h.samplingDuration, if_pos h.failureRatio]

namespace Record

structure Fit (t : Instant) (r : Record) : Prop where
  previous : r.previousStatus ≠ some r.status
  failures : 0 ≤ r.failureCount
  calls : r.failureCount ≤ r.totalCount
  closed : r.status = .closed → r.successCount = 0 ∧ ∃ u, r.resetAt = some u
  «open» : r.status = .open →
    r.failureCount = 0 ∧ r.totalCount = 0 ∧ r.successCount = 0 ∧ ∃ u, r.closeAt = some u
  halfOpen : r.status = .halfOpen → r.previousStatus = some .open ∧
    r.totalCount = r.successCount + r.failureCount ∧
    ∃ u, r.closeAt = some u ∧ t.reaches u = .ok true
  isolated : r.status = .isolated → r.failureCount = 0 ∧ r.totalCount = 0 ∧ r.successCount = 0

/-- A record as it is stored at a time: it fits, and no limit of its counters is reached. -/
structure Sound (c : Config) (t : Instant) (r : Record) : Prop where
  version : 1 ≤ r.version
  failures : 0 ≤ r.failureCount
  calls : r.failureCount ≤ r.totalCount
  previous : r.previousStatus ≠ some r.status
  «open» : r.status = .open →
    r.failureCount = 0 ∧ r.totalCount = 0 ∧ r.successCount = 0 ∧ r.closeAt ≠ none
  isolated : r.status = .isolated → r.failureCount = 0 ∧ r.totalCount = 0 ∧ r.successCount = 0
  halfOpen : r.status = .halfOpen → r.previousStatus = some .open ∧ r.failureCount = 0 ∧
    r.successCount = r.totalCount ∧ r.totalCount < c.successThreshold ∧
    ∃ u, r.closeAt = some u ∧ t.reaches u = .ok true
  closed : r.status = .closed →
    r.successCount = 0 ∧ r.resetAt ≠ none ∧ opens c t r = .ok false

variable {c : Config} {t t' : Instant} {target : Status} {r e : Record} {key : String}

theorem Fit.later (h : r.Fit t) (ht : t'.reaches t = .ok true) : r.Fit t' where
  previous := h.previous
  failures := h.failures
  calls := h.calls
  closed := h.closed
  «open» := h.open
  isolated := h.isolated
  halfOpen hs := by
    obtain ⟨hp, hc, u, hu, hr⟩ := h.halfOpen hs
    exact ⟨hp, hc, u, hu, Instant.reaches_trans ht hr⟩

theorem Sound.fit (h : r.Sound c t) : r.Fit t where
  previous := h.previous
  failures := h.failures
  calls := h.calls
  closed hs := ⟨(h.closed hs).1, Option.ne_none_iff_exists'.1 (h.closed hs).2.1⟩
  «open» hs := by
    obtain ⟨hf, hc, hg, hu⟩ := h.open hs
    exact ⟨hf, hc, hg, Option.ne_none_iff_exists'.1 hu⟩
  isolated := h.isolated
  halfOpen hs := by
    obtain ⟨hp, hf, hg, -, hu⟩ := h.halfOpen hs
    exact ⟨hp, by omega, hu⟩

theorem fit_next : r.next.Fit t ↔ r.Fit t :=
  ⟨fun h => ⟨h.1, h.2, h.3, h.4, h.5, h.6, h.7⟩, fun h => ⟨h.1, h.2, h.3, h.4, h.5, h.6, h.7⟩⟩

theorem thresholds_of_check (h : c.check = .ok ()) :
    1 ≤ c.successThreshold ∧ 1 ≤ c.failureThreshold :=
  have hc := Limits.check_eq_ok_iff.1 h
  ⟨hc.successThreshold, hc.failureThreshold⟩

theorem opens_of_no_failures {passed : Bool} (h : r.failureCount = 0) (hc : 1 ≤ c.failureThreshold)
    (hw : r.windowExpired t = .ok passed) : opens c t r = .ok false := by
  cases passed with
  | true => exact opens_of_expired hw
  | false => rw [opens_of_running hw, if_pos (by omega)]

theorem Fit.sound_of_due_none (h : r.Fit t) (hd : due c r.status t r = .ok none)
    (hv : 0 ≤ r.version) : r.next.Sound c t where
  version := by
    change 1 ≤ r.version + 1
    omega
  failures := h.failures
  calls := h.calls
  previous := h.previous
  «open» hs := by
    obtain ⟨hf, hc, hg, u, hu⟩ := h.open hs
    exact ⟨hf, hc, hg, Option.ne_none_iff_exists'.2 ⟨u, hu⟩⟩
  isolated := h.isolated
  halfOpen hs := by
    obtain ⟨hp, hc, hu⟩ := h.halfOpen hs
    have hs : r.status = .halfOpen := hs
    have hf := h.failures
    rw [hs, due] at hd
    split at hd
    · cases hd
    · split at hd
      · cases hd
      · change _ ∧ r.failureCount = 0 ∧ r.successCount = r.totalCount ∧ r.totalCount < _ ∧ _
        exact ⟨hp, by omega, by omega, by omega, hu⟩
  closed hs := by
    obtain ⟨hg, u, hu⟩ := h.closed hs
    refine ⟨hg, Option.ne_none_iff_exists'.2 ⟨u, hu⟩, ?_⟩
    have hs : r.status = .closed := hs
    rw [hs] at hd
    exact due_closed.1 hd

theorem Entered.sound (h : Entered c target t r e) (hc : c.check = .ok ()) {previous : Option Status}
    (hp : previous ≠ some target)
    (hh : target = .halfOpen → previous = some .open ∧
      ∃ u, r.closeAt = some u ∧ t.reaches u = .ok true) (hv : 0 ≤ r.version) :
    ({ e with previousStatus := previous } : Record).next.Sound c t where
  version := by
    have := h.version
    change 1 ≤ e.version + 1
    omega
  failures := h.failureCount.ge
  calls := (h.failureCount.trans h.totalCount.symm).le
  previous := by
    change previous ≠ some e.status
    rw [h.status]
    exact hp
  «open» hs := by
    have hs : e.status = .open := hs
    obtain ⟨u, -, hu⟩ := h.breakEnds (h.status.symm.trans hs)
    exact ⟨h.failureCount, h.totalCount, h.successCount, Option.ne_none_iff_exists'.2 ⟨u, hu⟩⟩
  isolated _ := ⟨h.failureCount, h.totalCount, h.successCount⟩
  halfOpen hs := by
    have hs : e.status = .halfOpen := hs
    have ht := h.status.symm.trans hs
    obtain ⟨hprev, u, hu, hr⟩ := hh ht
    have hcount := h.totalCount
    have hone := (thresholds_of_check hc).1
    refine ⟨hprev, h.failureCount, h.successCount.trans h.totalCount.symm, ?_, u, ?_, hr⟩
    · change e.totalCount < _
      omega
    · exact (h.closeAt (by rw [ht]; decide)).trans hu
  closed hs := by
    have hs : e.status = .closed := hs
    obtain ⟨u, hadd, hu⟩ := h.windowEnds (h.status.symm.trans hs)
    obtain ⟨passed, hr⟩ := Instant.reaches_addSeconds hadd
    refine ⟨h.successCount, Option.ne_none_iff_exists'.2 ⟨u, hu⟩, ?_⟩
    have hw : e.windowExpired t = .ok passed := by
      rw [windowExpired, hu]
      exact hr
    exact opens_of_no_failures h.failureCount (thresholds_of_check hc).2 hw

theorem Fit.probes (h : r.Fit t) (hd : due c r.status t r = .ok (some .halfOpen)) :
    r.status = .open ∧ ∃ u, r.closeAt = some u ∧ t.reaches u = .ok true := by
  generalize hs : r.status = status at hd
  cases owes_of_due hd with
  | probes hbreak =>
      obtain ⟨-, -, -, u, hu⟩ := h.open hs
      exact ⟨rfl, u, hu, hbreak u hu⟩

theorem Fit.clearCounters (h : r.Fit t) (hs : r.status = .closed) : r.clearCounters.Fit t where
  previous := h.previous
  failures := le_rfl
  calls := le_rfl
  closed _ := ⟨rfl, (h.closed hs).2⟩
  «open» ho := by cases hs.symm.trans ho
  isolated _ := ⟨rfl, rfl, rfl⟩
  halfOpen hh := by cases hs.symm.trans hh

theorem Fit.permit (h : r.Fit t) : (permit c r.status key t r).1.Fit t := by
  refine permit_elim h (fun hs => h.clearCounters hs) fun hs u _ => ?_
  have hclear := h.clearCounters hs
  exact ⟨hclear.1, hclear.2, hclear.3, fun _ => ⟨rfl, u, rfl⟩, hclear.5, hclear.6, hclear.7⟩

theorem Fit.countGood (h : r.Fit t) (hs : r.status.rejects = false) :
    (countGood r.status r).Fit t ∧ (countGood r.status r).status = r.status := by
  have hf := h.failures
  have hc := h.calls
  cases hst : r.status with
  | closed =>
      refine ⟨⟨h.previous, hf, ?_, h.closed, fun ho => ?_, fun hh => ?_, fun hi => ?_⟩, hst⟩
      · change r.failureCount ≤ r.totalCount + 1
        omega
      · cases hst.symm.trans ho
      · cases hst.symm.trans hh
      · cases hst.symm.trans hi
  | halfOpen =>
      refine ⟨⟨h.previous, hf, ?_, fun ho => ?_, fun ho => ?_, fun hh => ?_, fun hi => ?_⟩, hst⟩
      · change r.failureCount ≤ r.totalCount + 1
        omega
      · cases hst.symm.trans ho
      · cases hst.symm.trans ho
      · obtain ⟨hp, hsum, hu⟩ := h.halfOpen hst
        refine ⟨hp, ?_, hu⟩
        change r.totalCount + 1 = r.successCount + 1 + r.failureCount
        omega
      · cases hst.symm.trans hi
  | «open» | isolated => rw [hst] at hs; cases hs

theorem Fit.countBad (h : r.Fit t) (hs : r.status.rejects = false) :
    r.countCall.countFailure.Fit t := by
  have hf := h.failures
  have hc := h.calls
  refine ⟨h.previous, ?_, ?_, h.closed, fun ho => ?_, fun hh => ?_, fun hi => ?_⟩
  · change 0 ≤ r.failureCount + 1
    omega
  · change r.failureCount + 1 ≤ r.totalCount + 1
    omega
  · have ho : r.status = .open := ho
    rw [ho] at hs
    cases hs
  · obtain ⟨hp, hsum, hu⟩ := h.halfOpen hh
    refine ⟨hp, ?_, hu⟩
    change r.totalCount + 1 = r.successCount + (r.failureCount + 1)
    omega
  · have hi : r.status = .isolated := hi
    rw [hi] at hs
    cases hs

/-- The counters fit after any result of a call, if the rule for counting failures has an answer. -/
theorem Fit.settle {α : Type} (h : r.Fit t) (hs : r.status.rejects = false)
    (hc : ∀ f, ∃ counted, c.counts f = .ok counted) (result : Except Failure α) :
    (settle c r.status r result).1.Fit t ∧ (settle c r.status r result).1.status = r.status := by
  have hgood := h.countGood hs
  unfold Record.settle
  split
  · exact hgood
  · rename_i f
    split
    · obtain ⟨counted, hcount⟩ := hc f
      rw [hcount]
      cases counted with
      | true => exact ⟨h.countBad hs, rfl⟩
      | false => exact hgood
    · exact ⟨h, rfl⟩

end Record

end KeyedBreaker
