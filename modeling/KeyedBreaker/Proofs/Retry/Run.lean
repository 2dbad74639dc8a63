import KeyedBreaker.Proofs.Retry.Delay
import KeyedBreaker.Retry.Run
import Mathlib.Order.Bounds.Basic

namespace KeyedBreaker.Retry

variable {α : Type} {retried : Failure → Bool} {attempt : Nat → Except Failure α}

def Final (retried : Failure → Bool) : Except Failure α → Prop
  | .ok _ => True
  | .error f => retried f = false

/-- What the caller gets for the last outcome. -/
def handed (retried : Failure → Bool) (reraise : Bool) : Except Failure α → Outcome α
  | .ok v => .value v
  | .error f => if retried f && !reraise then .gaveUp f else .failed f

namespace Policy

variable {p : Policy} {fraction : Nat → Binary64}

def pauseAfter (p : Policy) (fraction : Nat → Binary64) (n : Nat) : Pause := ⟨n, p.delay (fraction n) n⟩

def round (p : Policy) (fraction : Nat → Binary64) (n : Nat) : List Event :=
  .call n :: (p.pauseAfter fraction n).events

theorem runFrom_of_retried {left n : Nat} {f : Failure} (ha : attempt n = .error f)
    (hf : retried f = true) :
    p.runFrom fraction retried attempt (left + 1) n =
      { p.runFrom fraction retried attempt left (n + 1) with
        events := p.round fraction n ++ (p.runFrom fraction retried attempt left (n + 1)).events } := by
  rw [runFrom.eq_def, ha]
  exact if_pos hf

/-- A run from attempt `n` on goes through `k` rounds before its last attempt. -/
structure Goes (p : Policy) (fraction : Nat → Binary64) (retried : Failure → Bool)
    (attempt : Nat → Except Failure α) (left n k : Nat) (r : Run α) : Prop where
  rounds : k ≤ left
  before : ∀ i < k, ¬ Final retried (attempt (n + i))
  last : k = left ∨ Final retried (attempt (n + k))
  events : r.events = (List.range' n k).flatMap (p.round fraction) ++ [.call (n + k)]
  outcome : ∀ reraise, r.ending.outcome reraise = handed retried reraise (attempt (n + k))

theorem Goes.at_once {left n : Nat} {e : Ending α} (h : left = 0 ∨ Final retried (attempt n))
    (ho : ∀ reraise, e.outcome reraise = handed retried reraise (attempt n)) :
    Goes p fraction retried attempt left n 0 ⟨e, [.call n]⟩ where
  rounds := Nat.zero_le _
  before i hi := absurd hi (Nat.not_lt_zero i)
  last := h.imp_left Eq.symm
  events := rfl
  outcome := ho

theorem Goes.succ {left n k : Nat} {r : Run α} (h : Goes p fraction retried attempt left (n + 1) k r)
    (hn : ¬ Final retried (attempt n)) :
    Goes p fraction retried attempt (left + 1) n (k + 1)
      { r with events := p.round fraction n ++ r.events } := by
  have hnext : n + (k + 1) = n + 1 + k := by omega
  refine ⟨Nat.succ_le_succ h.rounds, fun i hi => ?_, ?_, ?_, fun reraise => ?_⟩
  · cases i with
    | zero => exact hn
    | succ i =>
      rw [show n + (i + 1) = n + 1 + i by omega]
      exact h.before i (by omega)
  · rw [hnext]
    exact h.last.imp_left (congrArg Nat.succ)
  · rw [hnext, h.events, List.range'_succ, List.flatMap_cons, List.append_assoc]
  · rw [hnext]
    exact h.outcome reraise

/-- By induction on the attempts that are left: an attempt ends the run, or the rest follows its round. -/
theorem exists_goes (p : Policy) (fraction : Nat → Binary64) (retried : Failure → Bool)
    (attempt : Nat → Except Failure α) (left n : Nat) :
    ∃ k, Goes p fraction retried attempt left n k (p.runFrom fraction retried attempt left n) := by
  induction left generalizing n with
  | zero =>
    cases ha : attempt n with
    | ok v =>
      rw [runFrom.eq_def, ha]
      exact ⟨0, .at_once (.inl rfl) fun reraise => by rw [ha]; rfl⟩
    | error f =>
      rw [runFrom.eq_def, ha]
      refine ⟨0, .at_once (.inl rfl) fun reraise => ?_⟩
      rw [ha]
      cases hf : retried f <;> cases reraise <;> simp [Ending.outcome, handed, hf]
  | succ left ih =>
    cases ha : attempt n with
    | ok v =>
      rw [runFrom.eq_def, ha]
      exact ⟨0, .at_once (.inr (by rw [ha]; trivial)) fun reraise => by rw [ha]; rfl⟩
    | error f =>
      cases hf : retried f with
      | false =>
        rw [runFrom.eq_def, ha]
        simp only [hf]
        refine ⟨0, .at_once (.inr (by rw [ha]; exact hf)) fun reraise => ?_⟩
        rw [ha]
        simp [Ending.outcome, handed, hf]
      | true =>
        obtain ⟨k, hk⟩ := ih (n + 1)
        rw [runFrom_of_retried ha hf]
        refine ⟨k + 1, hk.succ ?_⟩
        rw [ha]
        exact fun h => by cases hf.symm.trans h

theorem calls_of_events {r : Run α} {n k : Nat}
    (h : r.events = (List.range' n k).flatMap (p.round fraction) ++ [.call (n + k)]) : r.calls = k + 1 := by
  have hround : ∀ i, (p.round fraction i).countP Event.isCall = 1 := fun i => rfl
  rw [Run.calls, h, List.countP_append, List.countP_flatMap]
  simp [Function.comp_def, hround, Event.isCall]

theorem pauses_of_events {r : Run α} {n k : Nat}
    (h : r.events = (List.range' n k).flatMap (p.round fraction) ++ [.call (n + k)]) :
    r.pauses = (List.range' n k).map (p.pauseAfter fraction) := by
  have hround : ∀ i, (p.round fraction i).filterMap Event.pause? = [p.pauseAfter fraction i] := fun i => rfl
  rw [Run.pauses, h, List.filterMap_append, List.filterMap_flatMap, List.map_eq_flatMap]
  simp only [hround]
  exact List.append_nil _

/-- The last attempt of a run: the first that no policy would follow by another one, or the last that this
policy allows, whichever comes first. -/
def IsLast (p : Policy) (retried : Failure → Bool) (attempt : Nat → Except Failure α) (m : Nat) : Prop :=
  IsLeast {n : Nat | 1 ≤ n ∧ ((n : Int) = p.attempts ∨ Final retried (attempt n))} m

theorem Goes.isLast {k : Nat} {r : Run α} (hp : 1 ≤ p.attempts)
    (h : Goes p fraction retried attempt (p.attempts.toNat - 1) 1 k r) :
    p.IsLast retried attempt (1 + k) := by
  have hrounds := h.rounds
  refine ⟨⟨Nat.le_add_right 1 k, h.last.imp_left fun hk => by omega⟩, ?_⟩
  rintro n ⟨hn, hlast⟩
  by_contra hlt
  have hfinal : ¬ Final retried (attempt n) := by
    have hbefore := h.before (n - 1) (by omega)
    rwa [Nat.add_sub_cancel' hn] at hbefore
  exact hfinal (hlast.resolve_left (by omega))

/-- A run under a policy that is accepted, whatever its attempts come to, which failures are retried and
which shares of the jitter are drawn. Its last attempt is known from the outcomes; each attempt before it is
followed by one pause, told of before it is slept, and the run hands on the last outcome. All pauses lie
between zero and the longest, and with the same share they never get shorter. -/
theorem run_law (hp : p.check = .ok ()) (hmin : p.minSeconds.isNaN = false)
    (hmax : p.maxSeconds.isNaN = false) (hjitter : p.jitterSeconds.isNaN = false)
    (retried : Failure → Bool) (attempt : Nat → Except Failure α) (fraction : Nat → Binary64) :
    (∃ m, p.IsLast retried attempt m ∧
      (p.runDrawn fraction retried attempt).calls = m ∧
      (p.runDrawn fraction retried attempt).events =
        (List.range' 1 (m - 1)).flatMap (fun n =>
          [.call n, .beforeSleep ⟨n, p.delay (fraction n) n⟩, .sleep (p.delay (fraction n) n)]) ++
          [.call m] ∧
      (p.runDrawn fraction retried attempt).pauses.map (·.attempt) = List.range' 1 (m - 1) ∧
      ∀ reraise, (p.runDrawn fraction retried attempt).ending.outcome reraise =
        handed retried reraise (attempt m)) ∧
    (∀ share n, Binary64.zero ≤ p.delay share n ∧ p.delay share n ≤ p.maxSeconds) ∧
    ∀ share, Binary64.zero ≤ share → ∀ n m, n ≤ m → p.delay share n ≤ p.delay share m := by
  have hn := Numeric.of_check hp hmin hmax hjitter
  refine ⟨?_, hn.delay_bounds, fun share hs n m hnm => hn.delay_mono hs hnm⟩
  obtain ⟨k, hk⟩ := exists_goes p fraction retried attempt (p.attempts.toNat - 1) 1
  refine ⟨1 + k, hk.isLast hn.attempts, ?_, ?_, ?_, hk.outcome⟩
  · rw [Nat.add_comm]
    exact calls_of_events hk.events
  · rw [Nat.add_sub_cancel_left]
    exact hk.events
  · rw [Nat.add_sub_cancel_left]
    refine (congrArg (List.map (·.attempt)) (pauses_of_events hk.events)).trans ?_
    rw [List.map_map]
    exact List.map_id _

def thirdTime (n : Nat) : Except Failure Nat := if n < 3 then .error .ratioRange else .ok n

theorem run_law_thirdTime :
    (conflict.runDrawn (fun _ => Binary64.ofInt 1) (retries [.overflow]) thirdTime).calls = 3 ∧
      ∀ reraise, (conflict.runDrawn (fun _ => Binary64.ofInt 1) (retries [.overflow]) thirdTime).ending.outcome
        reraise = .value 3 := by
  obtain ⟨⟨m, hm, hcalls, -, -, houtcome⟩, -⟩ :=
    run_law (p := conflict) (by decide +kernel) (by decide +kernel) (by decide +kernel) (by decide +kernel)
      (retries [.overflow]) thirdTime fun _ => Binary64.ofInt 1
  have hthree : conflict.IsLast (retries [.overflow]) thirdTime 3 := by
    refine ⟨⟨by decide, .inr trivial⟩, ?_⟩
    rintro n ⟨-, hn⟩
    by_contra hlt
    have hretried : thirdTime n = .error .ratioRange := if_pos (by omega)
    rw [hretried] at hn
    rcases hn with hlast | hfinal
    · rw [show conflict.attempts = 5 from rfl] at hlast
      omega
    · exact absurd (show retries [.overflow] .ratioRange = false from hfinal) (by decide)
  obtain rfl : m = 3 := hm.unique hthree
  exact ⟨hcalls, houtcome⟩

end Policy

end KeyedBreaker.Retry
