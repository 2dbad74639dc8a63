import KeyedBreaker.Failure.Basic

namespace KeyedBreaker

inductive Status where
  | closed
  | open
  | halfOpen
  | isolated
  deriving DecidableEq, Inhabited

namespace Status

def all : List Status := [.closed, .open, .halfOpen, .isolated]

def name : Status → String
  | .closed => "closed"
  | .open => "open"
  | .halfOpen => "half_open"
  | .isolated => "isolated"

def ofName? (name : String) : Option Status := all.find? (·.name = name)

theorem ofName?_name (s : Status) : ofName? s.name = some s := by cases s <;> decide

def rejects : Status → Bool
  | .open | .isolated => true
  | .closed | .halfOpen => false

end Status

structure Record where
  status : Status := .closed
  /-- Failures in the current window, or failed probes. -/
  failureCount : Int := 0
  /-- Calls in the current window, or probes. -/
  totalCount : Int := 0
  /-- Probes that did not fail. -/
  successCount : Int := 0
  /-- When an open circuit may be probed. -/
  closeAt : Option Instant := none
  /-- The end of the current window. -/
  resetAt : Option Instant := none
  /-- The status before the latest transition. -/
  previousStatus : Option Status := none
  /-- Raised by one by every write. -/
  version : Int := 0
  deriving DecidableEq, Inhabited

namespace Record

def clearCounters (r : Record) : Record :=
  { r with failureCount := 0, totalCount := 0, successCount := 0 }

def windowExpired (r : Record) (now : Instant) : Except TimeError Bool :=
  match r.resetAt with
  | none => .ok true
  | some t => now.reaches t

/-- A new window in place of an expired one. The counters are cleared even when the end of the new
window cannot be computed. -/
def rollWindow (r : Record) (now : Instant) (seconds : Binary64) : Record × Except TimeError Unit :=
  match r.windowExpired now with
  | .error e => (r, .error e)
  | .ok false => (r, .ok ())
  | .ok true =>
    match now.addSeconds seconds with
    | .error e => (r.clearCounters, .error e)
    | .ok t => ({ r.clearCounters with resetAt := some t }, .ok ())

def inRange : Binary64 → Except Failure Binary64
  | .infinite _ => .error .ratioRange
  | x => .ok x

/-- The quotient of two integers as a number, correctly rounded; the sign of a zero follows the
divisor. -/
def quotient (n d : Int) : Except Failure Binary64 :=
  inRange (Binary64.ofUnits ((n < 0) != (d < 0)) (n.natAbs * 2 ^ 1074) d.natAbs)

def failureRatio (r : Record) : Except Failure (Option Binary64) :=
  if r.totalCount = 0 then .ok none else (quotient r.failureCount r.totalCount).map some

/-- Seconds until an open circuit may be probed, never negative; zero if it is not open. -/
def remaining (r : Record) (now : Instant) : Except TimeError Binary64 :=
  match r.status, r.closeAt with
  | .open, some t => (t.since now).map fun d => d.seconds.max Binary64.zero
  | _, _ => .ok Binary64.zero

end Record

end KeyedBreaker
