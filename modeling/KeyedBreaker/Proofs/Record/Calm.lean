import KeyedBreaker.Proofs.Binary64.Monotone
import KeyedBreaker.Proofs.Record.Counted
import KeyedBreaker.Proofs.Record.Sound

namespace KeyedBreaker

namespace Record

def Few (c : Config) (r : Record) : Prop :=
  r.failureCount < c.failureThreshold ∨
    ∃ share, r.failureRatio = .ok (some share) ∧ share < c.failureRatio

/-- A record that does not open its circuit, at any time. -/
structure Tolerable (c : Config) (r : Record) : Prop where
  counted : r.Counted
  closed : r.status = .closed → r.Few c
  halfOpen : r.status = .halfOpen → r.failureCount ≤ 0

/-- A record that owes no transition at a time, unless its circuit is open. -/
structure Calm (c : Config) (t : Instant) (r : Record) : Prop where
  counted : r.Counted
  due : r.status ≠ .open → Record.due c r.status t r = .ok none

def Uncounted {α : Type} (c : Config) (result : Except Failure α) : Prop :=
  ∀ f, result = .error f → f.isOrdinary = true → c.counts f ≠ .ok true

variable {α : Type} {c : Config} {t t' : Instant} {target : Status} {r e : Record} {key : String}

theorem uncounted_error {f : Failure} : Uncounted c (.error f : Except Failure α) ↔
    (f.isOrdinary = true → c.counts f ≠ .ok true) :=
  ⟨fun h => h f rfl, fun h _ he => by cases he; exact h⟩

theorem Few.countCall (h : r.Few c) (hr : r.Counted) : r.countCall.Few c := by
  rcases h with h | ⟨share, hshare, hlt⟩
  · exact .inl h
  · right
    unfold failureRatio at hshare
    split at hshare
    · cases hshare
    · have hf := hr.failures
      have hle := hr.calls
      obtain ⟨x, y, hx, hy, hyx⟩ :=
        quotient_antitone hf (by omega) hle (show r.totalCount ≤ r.totalCount + 1 by omega)
      rw [hx] at hshare
      cases hshare
      refine ⟨y, ?_, Binary64.lt_of_le_of_lt hyx hlt⟩
      have hne : r.countCall.totalCount ≠ 0 := by
        change r.totalCount + 1 ≠ 0
        omega
      rw [failureRatio, if_neg hne]
      change (quotient r.failureCount (r.totalCount + 1)).map some = _
      rw [hy]
      rfl

theorem Few.opens {passed : Bool} (h : r.Few c) (hw : r.windowExpired t = .ok passed) :
    opens c t r = .ok false := by
  cases passed with
  | true => exact opens_of_expired hw
  | false =>
      rw [opens_of_running hw]
      split
      · rfl
      · rcases h with h | ⟨share, hshare, hlt⟩
        · exact absurd h ‹_›
        · rw [hshare, Except.map, Option.any_some, decide_eq_true hlt]
          rfl

theorem windowExpired_of_opens {o : Bool} (h : opens c t r = .ok o) :
    ∃ passed, r.windowExpired t = .ok passed := by
  unfold Record.opens at h
  cases hw : r.windowExpired t with
  | error err => rw [hw] at h; cases h
  | ok passed => exact ⟨passed, rfl⟩

/-- A closed circuit that stays closed has too few failures, unless its window has passed. -/
theorem few_of_opens (hr : r.Counted) (hc : 1 ≤ c.failureThreshold) (h : opens c t r = .ok false)
    (hw : r.windowExpired t = .ok false) : r.Few c := by
  rw [opens_of_running hw] at h
  split at h
  · exact .inl ‹_›
  · obtain ⟨share, hshare⟩ := hr.failureRatio
    rw [hshare] at h
    have h : (share.any fun x => !decide (x < c.failureRatio)) = false := Except.ok.inj h
    cases share with
    | some x =>
        rw [Option.any_some, Bool.not_eq_false'] at h
        exact .inr ⟨x, hshare, of_decide_eq_true h⟩
    | none =>
        -- without calls there are no failures either
        have h0 : r.totalCount = 0 := by
          by_contra hne
          rw [failureRatio, if_neg hne] at hshare
          cases hq : quotient r.failureCount r.totalCount <;> rw [hq] at hshare <;> cases hshare
        have hle := hr.calls
        exact .inl (by omega)

theorem windowExpired_later {passed : Bool} (h : r.windowExpired t = .ok passed)
    (ht : t'.reaches t = .ok true) :
    r.windowExpired t' = .ok true ∨ passed = false ∧ r.windowExpired t' = .ok false := by
  unfold windowExpired at h ⊢
  split
  · exact .inl rfl
  · rename_i u hu
    rw [hu] at h
    cases passed with
    | true => exact .inl (Instant.reaches_trans ht h)
    | false =>
        obtain ⟨later, hl⟩ := Instant.reaches_ok_trans ⟨true, ht⟩ ⟨false, h⟩
        cases later with
        | true => exact .inl hl
        | false => exact .inr ⟨rfl, hl⟩

/-- What is owed does not depend on the time while a circuit lets calls through, but for the end of its
window. -/
theorem Calm.later (h : r.Calm c t) (hc : 1 ≤ c.failureThreshold) (ht : t'.reaches t = .ok true) :
    r.Calm c t' := by
  refine ⟨h.counted, fun hs => ?_⟩
  have hdue := h.due hs
  cases hst : r.status with
  | closed =>
      rw [hst, due_closed] at hdue
      rw [due_closed]
      obtain ⟨passed, hw⟩ := windowExpired_of_opens hdue
      rcases windowExpired_later hw ht with hw' | ⟨rfl, hw'⟩
      · exact opens_of_expired hw'
      · exact (few_of_opens h.counted hc hdue hw).opens hw'
  | «open» => exact absurd hst hs
  | halfOpen =>
      rw [hst] at hdue
      exact hdue
  | isolated => rfl

theorem Calm.next (h : r.Calm c t) : r.next.Calm c t := ⟨⟨h.counted.failures, h.counted.calls⟩, h.due⟩

theorem Entered.calm (h : Entered c target t r e) (hc : c.check = .ok ()) (previous : Option Status) :
    ({ e with previousStatus := previous } : Record).Calm c t := by
  obtain ⟨hsuccesses, hfailures⟩ := thresholds_of_check hc
  refine ⟨⟨h.counted.failures, h.counted.calls⟩, fun hs => ?_⟩
  change due c e.status t e = .ok none
  rw [h.status]
  cases target with
  | closed =>
      obtain ⟨u, hadd, hu⟩ := h.windowEnds rfl
      obtain ⟨passed, hr⟩ := Instant.reaches_addSeconds hadd
      have hw : e.windowExpired t = .ok passed := by
        rw [windowExpired, hu]
        exact hr
      exact due_closed.2 (opens_of_no_failures h.failureCount hfailures hw)
  | «open» => exact absurd h.status hs
  | halfOpen =>
      have hf := h.failureCount
      have hg := h.successCount
      rw [due, if_neg (by omega), if_neg (by omega)]
  | isolated => rfl

theorem Calm.permit (h : r.Calm c t) (hc : 1 ≤ c.failureThreshold) :
    (permit c r.status key t r).1.Tolerable c := by
  refine ⟨h.counted.permit, fun hs => ?_, fun hs => ?_⟩
  · rw [status_permit] at hs
    have hdue := h.due (by rw [hs]; decide)
    rw [hs, due_closed] at hdue
    rw [hs, Record.permit, rollWindow]
    obtain ⟨passed, hw⟩ := windowExpired_of_opens hdue
    rw [hw]
    cases passed with
    | true =>
        dsimp only
        split <;> exact .inl hc
    | false => exact few_of_opens h.counted hc hdue hw
  · rw [status_permit] at hs
    have hdue := h.due (by rw [hs]; decide)
    rw [hs, Record.due] at hdue
    rw [hs]
    split at hdue
    · cases hdue
    · exact not_lt.1 ‹_›

theorem Tolerable.countCall (h : r.Tolerable c) : r.countCall.Tolerable c :=
  ⟨h.counted.countCall, fun hs => (h.closed hs).countCall h.counted, h.halfOpen⟩

theorem Tolerable.countGood {status : Status} (h : r.Tolerable c) : (countGood status r).Tolerable c := by
  cases status with
  | halfOpen => exact ⟨⟨h.countCall.counted.failures, h.countCall.counted.calls⟩, h.countCall.closed,
      h.countCall.halfOpen⟩
  | _ => exact h.countCall

theorem Tolerable.settle {status : Status} (h : r.Tolerable c) {result : Except Failure α}
    (hr : Uncounted c result) : (settle c status r result).1.Tolerable c :=
  settle_elim h.countGood (fun f hf hordinary hcounts => absurd hcounts (hr f hf hordinary)) h.countCall
    fun _ _ _ => h

theorem Tolerable.due_ne_open (h : r.Tolerable c) : Record.due c r.status t r ≠ .ok (some .open) := by
  intro hd
  generalize hs : r.status = status at hd
  cases owes_of_due hd with
  | opens ho =>
      obtain ⟨passed, hw⟩ := windowExpired_of_opens ho
      rw [(h.closed hs).opens hw] at ho
      cases ho
  | reopens hfailed =>
      have := h.halfOpen hs
      omega

end Record

namespace Breaker

variable {b : Breaker} {t : Instant} {r e : Record} {target : Status} {x : Option Record}

/-- A calm record owes nothing but the probing of an open circuit. -/
theorem change_of_calm (h : r.Calm b.config t) (hc : b.change t r = .ok (some (target, e))) :
    r.status = .open ∧ target = .halfOpen := by
  have hd := (change_eq_some hc).1
  have hs : r.status = .open := by
    by_contra hs
    rw [h.due hs] at hd
    cases hd
  refine ⟨hs, ?_⟩
  rw [hs] at hd
  cases Record.owes_of_due hd
  rfl

theorem calm_of_change (hc : b.config.check = .ok ()) (h : b.change t r = .ok (some (target, e))) :
    e.Calm b.config t := by
  obtain ⟨entered, hent, rfl⟩ := enter_eq_ok (change_eq_some h).2
  exact hent.calm hc _

theorem calm_of_loaded (hc : b.config.check = .ok ()) (h : b.loaded t (.ok x) = .ok r)
    (hx : ∀ r', x = some r' → r'.Calm b.config t) : r.Calm b.config t := by
  obtain rfl | ⟨rfl, hent⟩ := loaded_cases h
  · exact hx r rfl
  · exact hent.calm hc r.previousStatus

/-- What is stored at the end of a call is calm, whatever comes of the call. -/
theorem calm_of_renewed (hc : b.config.check = .ok ()) (h : b.renewed t r = .ok e) (hr : r.Counted) :
    e.Calm b.config t := by
  rcases renewed_cases h with ⟨hnone, rfl⟩ | ⟨target, hsome⟩
  · refine ⟨hr, fun _ => ?_⟩
    unfold change at hnone
    split at hnone
    · cases hnone
    · rename_i hd
      exact hd
    · split at hnone <;> cases hnone
  · exact calm_of_change hc hsome

theorem calm_of_forced (hc : b.config.check = .ok ()) (h : b.forced target t r = .ok e) :
    e.Calm b.config t := by
  obtain ⟨entered, hent, rfl⟩ := forced_eq_ok h
  exact hent.calm hc _

end Breaker

end KeyedBreaker
