import KeyedBreaker.Proofs.Record.Dated

namespace KeyedBreaker

namespace Record

structure Timely (t : Instant) (r : Record) : Prop where
  closeAt : ∀ u, r.closeAt = some u → ∃ passed, t.reaches u = .ok passed
  resetAt : ∀ u, r.resetAt = some u → ∃ passed, t.reaches u = .ok passed

/-- The share of failures is a finite number, and so it is when one more call is counted. -/
structure FiniteShare (r : Record) : Prop where
  now : ∃ share, r.failureRatio = .ok share
  counted : ∃ share, r.countCall.failureRatio = .ok share
  failed : ∃ share, r.countCall.countFailure.failureRatio = .ok share

structure Answerable (t : Instant) (r : Record) : Prop extends Timely t r where
  share : r.status = .closed → r.FiniteShare

variable {c : Config} {t t' : Instant} {r e : Record} {target : Status} {key : String}

theorem Timely.later (h : r.Timely t) (ht : ∃ passed, t'.reaches t = .ok passed) : r.Timely t' where
  closeAt u hu := Instant.reaches_ok_trans ht (h.closeAt u hu)
  resetAt u hu := Instant.reaches_ok_trans ht (h.resetAt u hu)

theorem Timely.dated (h : r.Timely t) : r.Dated t := by
  intro u hu
  unfold deadline at hu
  split at hu
  · exact h.resetAt u hu
  · exact h.closeAt u hu
  · cases hu
  · cases hu

theorem Timely.permit (h : r.Timely t) : (Record.permit c r.status key t r).1.Timely t := by
  refine permit_elim h (fun _ => ⟨h.closeAt, h.resetAt⟩) fun _ u hu => ⟨h.closeAt, fun u' hu' => ?_⟩
  cases hu'
  exact Instant.reaches_addSeconds hu

theorem finiteShare_of_counted (h : r.Counted) : r.FiniteShare where
  now := h.failureRatio
  counted := h.countCall.failureRatio
  failed := h.countFailed.failureRatio

theorem FiniteShare.permit (h : r.FiniteShare) : (Record.permit c r.status key t r).1.FiniteShare :=
  permit_elim h (fun _ => finiteShare_of_counted (Counted.clearCounters r))
    fun _ _ _ => finiteShare_of_counted ⟨le_rfl, le_rfl⟩

theorem FiniteShare.settle {α : Type} (h : r.FiniteShare) (result : Except Failure α) :
    ∃ share, (Record.settle c .closed r result).1.failureRatio = .ok share :=
  settle_elim (P := fun e => ∃ share, e.failureRatio = .ok share) h.counted
    (fun _ _ _ _ => h.failed) h.counted fun _ _ _ => h.now

theorem FiniteShare.permit_settle {α : Type} (h : r.FiniteShare) (hs : r.status = .closed)
    (result : Except Failure α) :
    ∃ share, (Record.settle c r.status (Record.permit c r.status key t r).1 result).1.failureRatio =
      .ok share := by
  have hpermit : (Record.permit c r.status key t r).1.FiniteShare := h.permit
  rw [hs] at hpermit ⊢
  exact hpermit.settle result

theorem Answerable.next (h : r.Answerable t) : r.next.Answerable t :=
  ⟨⟨h.closeAt, h.resetAt⟩, fun hs => ⟨(h.share hs).now, (h.share hs).counted, (h.share hs).failed⟩⟩

theorem timely_of_entering (h : r.Timely t) (he : entering c target t r = .ok e) : e.Timely t := by
  cases target with
  | closed =>
      obtain ⟨u, hu, he⟩ := exists_of_bind_eq_ok he
      cases he
      refine ⟨h.closeAt, fun u' hu' => ?_⟩
      cases hu'
      exact Instant.reaches_addSeconds hu
  | «open» =>
      obtain ⟨u, hu, he⟩ := exists_of_bind_eq_ok he
      cases he
      refine ⟨fun u' hu' => ?_, h.resetAt⟩
      cases hu'
      exact Instant.reaches_addSeconds hu
  | halfOpen | isolated =>
      cases he
      exact ⟨h.closeAt, h.resetAt⟩

theorem answerable_of_entering (h : r.Timely t) (he : entering c target t r = .ok e) :
    e.Answerable t :=
  ⟨timely_of_entering h he, fun _ => finiteShare_of_counted (entered_of_entering he).counted⟩

theorem Timely.due (h : r.Timely t)
    (hshare : r.status = .closed → ∃ share, r.failureRatio = .ok share) :
    ∃ o, Record.due c r.status t r = .ok o :=
  due_eq_ok (fun hs => ⟨h.dated.windowExpired hs, hshare hs⟩) fun _ => h.closeAt

theorem Answerable.permit (h : r.Answerable t) (key : String)
    (hwindow : ∃ u, t.addSeconds c.samplingDuration = .ok u) :
    (Record.permit c r.status key t r).1.Answerable t ∧
      (((Record.permit c r.status key t r).2 = .ok ()) ∨
        ∃ f, Record.permit c r.status key t r = (r, .error f) ∧ r.Rejects key f) :=
  ⟨⟨h.toTimely.permit, fun hs => (h.share (status_permit.symm.trans hs)).permit⟩,
    h.toTimely.dated.permitted key hwindow⟩

theorem Timely.settle {α : Type} {status : Status} (h : r.Timely t) (result : Except Failure α) :
    (Record.settle c status r result).1.Timely t := by
  obtain ⟨failures, calls, successes, he⟩ := settle_counters result
  rw [he]
  exact ⟨h.closeAt, h.resetAt⟩

end Record

namespace Breaker

variable {b : Breaker} {t : Instant} {r e : Record} {target : Status}

theorem change_of_timely (h : r.Timely t)
    (hshare : r.status = .closed → ∃ share, r.failureRatio = .ok share)
    (hwindow : ∃ u, t.addSeconds b.config.samplingDuration = .ok u)
    (hbreak : ∃ u, t.addSeconds b.config.breakDuration = .ok u) : ∃ o, b.change t r = .ok o := by
  have hrange : b.InRange t r := ⟨h.dated.windowExpired, hbreak, hwindow⟩
  exact hrange.change (h.due hshare)

theorem renewed_of_timely (h : r.Timely t)
    (hshare : r.status = .closed → ∃ share, r.failureRatio = .ok share)
    (hwindow : ∃ u, t.addSeconds b.config.samplingDuration = .ok u)
    (hbreak : ∃ u, t.addSeconds b.config.breakDuration = .ok u) : ∃ e, b.renewed t r = .ok e := by
  obtain ⟨o, ho⟩ := change_of_timely h hshare hwindow hbreak
  rw [renewed, ho]
  exact ⟨_, rfl⟩

theorem answerable_of_change (h : r.Answerable t) (hc : b.change t r = .ok (some (target, e))) :
    e.Answerable t := by
  have he := (change_eq_some hc).2
  unfold enter at he
  cases hent : Record.entering b.config target t r with
  | error err => rw [hent] at he; cases he
  | ok entered =>
      rw [hent] at he
      cases he
      have ha := Record.answerable_of_entering h.toTimely hent
      exact ⟨⟨ha.closeAt, ha.resetAt⟩, fun hs =>
        ⟨(ha.share hs).now, (ha.share hs).counted, (ha.share hs).failed⟩⟩

end Breaker

end KeyedBreaker
