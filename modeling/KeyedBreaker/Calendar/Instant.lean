import KeyedBreaker.Binary64.Decimal
import KeyedBreaker.Calendar.Date

namespace KeyedBreaker

inductive TimeError where
  | mixedComparison
  | mixedDifference
  | dateRange
  | durationNaN
  | durationInfinite
  | durationBeyondWord
  | durationDays (days : Int)
  deriving DecidableEq

structure Duration where
  micros : Int
  deriving DecidableEq

namespace Duration

def microsPerDay : Int := 86400 * 10 ^ 6

/-- Refuses lengths of a thousand million days and more. -/
def ofMicros (micros : Int) : Except TimeError Duration :=
  let days := micros.fdiv microsPerDay
  if days < -2 ^ 31 ∨ 2 ^ 31 ≤ days then .error .durationBeyondWord
  else if 999999999 < days.natAbs then .error (.durationDays days)
  else .ok ⟨micros⟩

/-- The whole seconds are taken exactly; the rest is multiplied by a million as a binary64 number
and then rounded to the nearest microsecond, ties to even. -/
def ofSeconds : Binary64 → Except TimeError Duration
  | .nan => .error .durationNaN
  | .infinite _ => .error .durationInfinite
  | .finite s u h =>
    let rest := (Binary64.fraction (.finite s u h) * Binary64.ofInt 1000000).nearestInt?
    ofMicros (Binary64.signed s (u / 2 ^ 1074) * 10 ^ 6 + rest.getD 0)

def seconds (d : Duration) : Binary64 := Binary64.ofRatio d.micros (10 ^ 6)

end Duration

/-- Minutes east of universal time, less than a day. -/
structure Offset where
  minutes : Int
  minutes_lt : minutes.natAbs < 1440
  deriving DecidableEq

structure Instant where
  /-- Microseconds on the wall clock since 0001-01-01T00:00. -/
  wall : Nat
  offset : Option Offset
  wall_lt : wall < Date.dayCount * (86400 * 10 ^ 6)
  deriving DecidableEq

namespace Instant

def ofWall? (wall : Int) (offset : Option Offset) : Option Instant :=
  if h : wall.toNat < Date.dayCount * (86400 * 10 ^ 6) then
    if 0 ≤ wall then some ⟨wall.toNat, offset, h⟩ else none
  else none

def universal (wall : Nat) (offset : Offset) : Int := wall - offset.minutes * (60 * 10 ^ 6)

def gap? (a b : Instant) : Option Int :=
  match a.offset, b.offset with
  | none, none => some (a.wall - b.wall)
  | some o, some p => some (universal a.wall o - universal b.wall p)
  | _, _ => none

def reaches (now deadline : Instant) : Except TimeError Bool :=
  match gap? now deadline with
  | some gap => .ok (0 ≤ gap)
  | none => .error .mixedComparison

def isSince (a b : Instant) : Bool := (gap? a b).any (0 ≤ ·)

def since (a b : Instant) : Except TimeError Duration :=
  match gap? a b with
  | some gap => .ok ⟨gap⟩
  | none => .error .mixedDifference

/-- Later on the same clock: the offset is kept and the reading must stay in range. -/
def add (a : Instant) (d : Duration) : Except TimeError Instant :=
  match ofWall? (a.wall + d.micros) a.offset with
  | some b => .ok b
  | none => .error .dateRange

def addSeconds (a : Instant) (seconds : Binary64) : Except TimeError Instant := do
  a.add (← Duration.ofSeconds seconds)

end Instant

end KeyedBreaker
