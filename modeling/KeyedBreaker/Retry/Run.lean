import KeyedBreaker.Failure.Basic
import KeyedBreaker.Retry.Policy

namespace KeyedBreaker.Retry

variable {α : Type}

def retries (classes : List FailureClass) (f : Failure) : Bool :=
  f.isOrdinary && classes.any f.isA

structure Pause where
  /-- The attempt that the pause follows. -/
  attempt : Nat
  delay : Binary64

inductive Event where
  | call (attempt : Nat)
  /-- The hook for pauses is told of one. -/
  | beforeSleep (p : Pause)
  | sleep (seconds : Binary64)

namespace Event

def isCall : Event → Bool
  | .call _ => true
  | _ => false

def pause? : Event → Option Pause
  | .beforeSleep p => some p
  | _ => none

end Event

namespace Pause

def events (p : Pause) : List Event := [.beforeSleep p, .sleep p.delay]

end Pause

inductive Ending (α : Type) where
  | value (v : α)
  | failed (f : Failure)
  /-- No attempt is left after a failure that would have been tried again. -/
  | exhausted (f : Failure)

inductive Outcome (α : Type) where
  | value (v : α)
  | failed (f : Failure)
  /-- The error of a run that gave up, which holds the last failure. -/
  | gaveUp (last : Failure)

namespace Ending

def outcome (reraise : Bool) : Ending α → Outcome α
  | .value v => .value v
  | .failed f => .failed f
  | .exhausted f => if reraise then .failed f else .gaveUp f

end Ending

structure Run (α : Type) where
  ending : Ending α
  events : List Event

namespace Run

def calls (r : Run α) : Nat := r.events.countP Event.isCall

def pauses (r : Run α) : List Pause := r.events.filterMap Event.pause?

end Run

namespace Policy

/-- The run from attempt `n` on, when the policy allows `left` more after it. The fraction of the
jitter is drawn anew for each pause. -/
def runFrom (p : Policy) (fraction : Nat → Binary64) (retried : Failure → Bool)
    (attempt : Nat → Except Failure α) (left n : Nat) : Run α :=
  match attempt n, left with
  | .ok v, _ => ⟨.value v, [.call n]⟩
  | .error f, 0 => ⟨if retried f then .exhausted f else .failed f, [.call n]⟩
  | .error f, left + 1 =>
    if retried f then
      let pause : Pause := ⟨n, p.delay (fraction n) n⟩
      let rest := runFrom p fraction retried attempt left (n + 1)
      { rest with events := .call n :: (pause.events ++ rest.events) }
    else ⟨.failed f, [.call n]⟩

def runDrawn (p : Policy) (fraction : Nat → Binary64) (retried : Failure → Bool)
    (attempt : Nat → Except Failure α) : Run α :=
  runFrom p fraction retried attempt (p.attempts.toNat - 1) 1

def run (p : Policy) (fraction : Binary64) (retried : Failure → Bool)
    (attempt : Nat → Except Failure α) : Run α :=
  p.runDrawn (fun _ => fraction) retried attempt

end Policy

end KeyedBreaker.Retry
