import KeyedBreaker.Proofs.Calendar.Order
import KeyedBreaker.Proofs.Record.Counted

namespace KeyedBreaker

namespace Instant

variable {a b t u : Instant} {e : TimeError}

theorem reaches_eq_error (h : a.reaches b = .error e) : e = .mixedComparison := by
  unfold reaches at h
  split at h <;> cases h
  rfl

theorem since_eq_error (h : a.since b = .error e) : e = .mixedDifference := by
  unfold since at h
  split at h <;> cases h
  rfl

end Instant

namespace Record

def deadline (r : Record) : Option Instant :=
  match r.status with
  | .closed => r.resetAt
  | .open => r.closeAt
  | .halfOpen | .isolated => none

/-- The time at which the status ends can be compared with the clock. -/
def Dated (t : Instant) (r : Record) : Prop :=
  ∀ u, r.deadline = some u → ∃ passed, t.reaches u = .ok passed

def Rejects (key : String) (r : Record) (f : Failure) : Prop :=
  (r.status = .open ∧ ∃ seconds, f = .circuitOpen key seconds) ∨
    r.status = .isolated ∧ f = .circuitIsolated key

inductive Unanswered (t : Instant) (r : Record) : Failure → Prop
  | undated : ¬ r.Dated t → Unanswered t r (.time .mixedComparison)
  | unweighed : r.status = .closed → (∀ share, r.failureRatio ≠ .ok share) →
      Unanswered t r .ratioRange

variable {c : Config} {t t' : Instant} {r e : Record} {target : Status} {key : String} {f : Failure}

theorem Rejects.rejects (h : r.Rejects key f) : r.status.rejects = true := by
  obtain ⟨hs, -⟩ | ⟨hs, -⟩ := h <;> rw [hs] <;> rfl

theorem Rejects.status_eq {r' : Record} (h : r.Rejects key f) (h' : r'.Rejects key f) :
    r.status = r'.status := by
  obtain ⟨hs, seconds, rfl⟩ | ⟨hs, rfl⟩ := h <;> obtain ⟨hs', seconds', hf⟩ | ⟨hs', hf⟩ := h' <;> cases hf <;>
    rw [hs, hs']

theorem deadline_of_closed (h : r.status = .closed) : r.deadline = r.resetAt := by
  rw [deadline, h]

theorem deadline_of_open (h : r.status = .open) : r.deadline = r.closeAt := by
  rw [deadline, h]

theorem Dated.later (h : r.Dated t) (ht : ∃ passed, t'.reaches t = .ok passed) : r.Dated t' :=
  fun u hu => Instant.reaches_ok_trans ht (h u hu)

theorem Entered.dated (h : Entered c target t r e) : e.Dated t := by
  intro u hu
  cases target with
  | closed =>
      obtain ⟨u', hadd, he⟩ := h.windowEnds rfl
      rw [deadline_of_closed h.status, he] at hu
      cases hu
      exact Instant.reaches_addSeconds hadd
  | «open» =>
      obtain ⟨u', hadd, he⟩ := h.breakEnds rfl
      rw [deadline_of_open h.status, he] at hu
      cases hu
      exact Instant.reaches_addSeconds hadd
  | halfOpen | isolated =>
      rw [deadline, h.status] at hu
      cases hu

theorem Dated.permit (h : r.Dated t) : (Record.permit c r.status key t r).1.Dated t := by
  refine permit_elim h (fun _ => h) fun hs u hu u' hu' => ?_
  rw [deadline_of_closed (r := { r.clearCounters with resetAt := some u }) hs] at hu'
  cases hu'
  exact Instant.reaches_addSeconds hu

theorem Dated.settle {α : Type} {status : Status} (h : r.Dated t) (result : Except Failure α) :
    (Record.settle c status r result).1.Dated t := by
  obtain ⟨failures, calls, successes, he⟩ := settle_counters result
  rw [he]
  exact h

theorem windowExpired_eq_error {err : TimeError} (h : r.windowExpired t = .error err) :
    ∃ u, r.resetAt = some u ∧ t.reaches u = .error err := by
  unfold windowExpired at h
  split at h
  · cases h
  · exact ⟨_, ‹_›, h⟩

theorem Dated.windowExpired (h : r.Dated t) (hs : r.status = .closed) :
    ∃ passed, r.windowExpired t = .ok passed := by
  unfold Record.windowExpired
  split
  · exact ⟨true, rfl⟩
  · exact h _ ((deadline_of_closed hs).trans ‹_›)

theorem Dated.remaining (h : r.Dated t) : ∃ seconds, r.remaining t = .ok seconds := by
  unfold Record.remaining
  split
  · obtain ⟨d, hd⟩ := Instant.since_of_reaches (h _ ((deadline_of_open ‹_›).trans ‹_›))
    rw [hd]
    exact ⟨_, rfl⟩
  · exact ⟨_, rfl⟩

theorem remaining_eq_error {err : TimeError} (h : r.remaining t = .error err) :
    r.status = .open ∧ ¬ r.Dated t ∧ err = .mixedDifference := by
  have hd : ¬ r.Dated t := by
    intro hd
    obtain ⟨seconds, hr⟩ := hd.remaining
    rw [hr] at h
    cases h
  unfold remaining at h
  split at h
  · rename_i u hs _
    cases hg : u.since t with
    | ok d => rw [hg] at h; cases h
    | error err' =>
        rw [hg] at h
        cases h
        exact ⟨hs, hd, Instant.since_eq_error hg⟩
  · cases h

theorem Dated.permit_cases (h : r.Dated t) (c : Config) (key : String) :
    (Record.permit c r.status key t r).2 = .ok () ∨
      (∃ f, Record.permit c r.status key t r = (r, .error f) ∧ r.Rejects key f) ∨
      r.status = .closed ∧ ∃ err, t.addSeconds c.samplingDuration = .error err ∧
        (Record.permit c r.status key t r).2 = .error (.time err) := by
  cases hs : r.status with
  | closed =>
      obtain ⟨passed, hw⟩ := h.windowExpired hs
      rw [Record.permit, rollWindow, hw]
      cases passed with
      | false => exact .inl rfl
      | true =>
          dsimp only
          cases hu : t.addSeconds c.samplingDuration with
          | ok u => exact .inl rfl
          | error err => exact .inr (.inr ⟨rfl, err, rfl, rfl⟩)
  | halfOpen => exact .inl rfl
  | «open» =>
      obtain ⟨seconds, hr⟩ := h.remaining
      rw [Record.permit, hr]
      exact .inr (.inl ⟨_, rfl, .inl ⟨hs, seconds, rfl⟩⟩)
  | isolated => exact .inr (.inl ⟨_, rfl, .inr ⟨hs, rfl⟩⟩)

theorem Dated.permitted (h : r.Dated t) (key : String)
    (hwindow : ∃ u, t.addSeconds c.samplingDuration = .ok u) :
    (Record.permit c r.status key t r).2 = .ok () ∨
      ∃ f, Record.permit c r.status key t r = (r, .error f) ∧ r.Rejects key f := by
  obtain hp | hrejects | ⟨-, err, herr, -⟩ := h.permit_cases c key
  · exact .inl hp
  · exact .inr hrejects
  · obtain ⟨u, hu⟩ := hwindow
    rw [hu] at herr
    cases herr

theorem quotient_eq_error {n d : Int} (h : quotient n d = .error f) : f = .ratioRange := by
  unfold quotient at h
  cases hq : Binary64.ofUnits ((n < 0) != (d < 0)) (n.natAbs * 2 ^ 1074) d.natAbs with
  | infinite s =>
      rw [hq] at h
      cases h
      rfl
  | nan | finite => rw [hq] at h; cases h

theorem failureRatio_eq_error (h : r.failureRatio = .error f) : f = .ratioRange := by
  unfold failureRatio at h
  split at h
  · cases h
  · cases hq : quotient r.failureCount r.totalCount with
    | ok x => rw [hq] at h; cases h
    | error g =>
        rw [hq] at h
        cases h
        exact quotient_eq_error hq

theorem opens_eq_error (h : opens c t r = .error f) (hs : r.status = .closed) : r.Unanswered t f := by
  cases hw : r.windowExpired t with
  | error err =>
      obtain ⟨u, hu, hr⟩ := windowExpired_eq_error hw
      rw [opens, hw] at h
      cases h
      rw [Instant.reaches_eq_error hr]
      refine .undated fun hd => ?_
      obtain ⟨passed, hp⟩ := hd u ((deadline_of_closed hs).trans hu)
      rw [hr] at hp
      cases hp
  | ok passed =>
      cases passed with
      | true => rw [opens_of_expired hw] at h; cases h
      | false =>
          rw [opens_of_running hw] at h
          split at h
          · cases h
          · cases hq : r.failureRatio with
            | ok share => rw [hq] at h; cases h
            | error g =>
                rw [hq] at h
                cases h
                rw [failureRatio_eq_error hq]
                refine .unweighed hs fun share hshare => ?_
                rw [hq] at hshare
                cases hshare

/-- Nothing else keeps a breaker from telling which transition is due. -/
theorem due_eq_error (h : due c r.status t r = .error f) : r.Unanswered t f := by
  cases hs : r.status with
  | closed =>
      rw [hs, due] at h
      cases ho : opens c t r with
      | ok o => rw [ho] at h; cases o <;> cases h
      | error g =>
          rw [ho] at h
          cases h
          exact opens_eq_error ho hs
  | «open» =>
      rw [hs, due] at h
      split at h
      · cases h
      · rename_i u hu
        cases hr : t.reaches u with
        | ok passed => rw [hr] at h; cases passed <;> cases h
        | error err =>
            rw [hr] at h
            cases h
            rw [Instant.reaches_eq_error hr]
            refine .undated fun hd => ?_
            obtain ⟨passed, hp⟩ := hd u ((deadline_of_open hs).trans hu)
            rw [hr] at hp
            cases hp
  | halfOpen =>
      rw [hs, due] at h
      split at h
      · cases h
      · split at h <;> cases h
  | isolated => rw [hs] at h; cases h

theorem dated_of_due {o : Option Status} (h : due c r.status t r = .ok o) : r.Dated t := by
  intro u hu
  cases hs : r.status with
  | closed =>
      rw [deadline_of_closed hs] at hu
      rw [hs, due] at h
      cases hr : t.reaches u with
      | ok passed => exact ⟨passed, rfl⟩
      | error err =>
          have hw : r.windowExpired t = .error err := by
            rw [windowExpired, hu]
            exact hr
          rw [opens, hw] at h
          cases h
  | «open» =>
      rw [deadline_of_open hs] at hu
      rw [hs, due, hu] at h
      cases hr : t.reaches u with
      | ok passed => exact ⟨passed, rfl⟩
      | error err =>
          dsimp only at h
          rw [hr] at h
          cases h
  | halfOpen | isolated =>
      rw [deadline, hs] at hu
      cases hu

end Record

namespace Breaker

variable {b : Breaker} {t : Instant} {r e : Record} {target : Status} {f : Failure}

theorem change_error_cases (h : b.change t r = .error f) :
    r.Unanswered t f ∨ ∃ target err, b.enter target t r = .error err ∧ f = .time err := by
  unfold change at h
  split at h
  · cases h
    exact .inl (Record.due_eq_error ‹_›)
  · cases h
  · rename_i target _
    cases he : b.enter target t r <;> rw [he] at h <;> cases h
    exact .inr ⟨target, _, he, rfl⟩

theorem change_eq_error (hspans : b.Spans t) (h : b.change t r = .error f) : r.Unanswered t f := by
  obtain hun | ⟨target, err, herr, -⟩ := change_error_cases h
  · exact hun
  · obtain ⟨e, he⟩ := hspans.entering target r
    rw [he] at herr
    cases herr

theorem renewed_eq_error (hspans : b.Spans t) (h : b.renewed t r = .error f) : r.Unanswered t f := by
  unfold renewed at h
  cases hc : b.change t r with
  | ok o => rw [hc] at h; cases h
  | error g =>
      rw [hc] at h
      cases h
      exact change_eq_error hspans hc

theorem dated_carries (b : Breaker) (t : Instant) : b.Carries t (Record.Dated t) where
  next h := h
  fresh h := (entered_of_loaded h).dated
  changed _ hc := by
    obtain ⟨entered, hent, rfl⟩ := enter_eq_ok (change_eq_some hc).2
    exact hent.dated
  permitted h := h.permit
  settled result h _ _ := h.settle result
  forced _ hf := by
    obtain ⟨entered, hent, rfl⟩ := forced_eq_ok hf
    exact hent.dated

theorem dated_of_change {o : Option (Status × Record)} (h : b.change t r = .ok o) : r.Dated t := by
  unfold change at h
  split at h
  · cases h
  · exact Record.dated_of_due ‹_›
  · exact Record.dated_of_due ‹_›

end Breaker

end KeyedBreaker
