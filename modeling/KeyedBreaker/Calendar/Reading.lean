import KeyedBreaker.Calendar.Instant

namespace KeyedBreaker

def digit? (c : Char) : Option Nat := if c.isDigit then some (c.toNat - '0'.toNat) else none

def fixedDigits : Nat → Nat → List Char → Option (Nat × List Char)
  | 0, acc, cs => some (acc, cs)
  | _ + 1, _, [] => none
  | width + 1, acc, c :: cs =>
    match digit? c with
    | some d => fixedDigits width (10 * acc + d) cs
    | none => none

def expect (p : Char → Bool) : List Char → Option (List Char)
  | c :: cs => if p c then some cs else none
  | [] => none

def ofDigits (cs : List Char) : Nat := cs.foldl (fun acc c => 10 * acc + (digit? c).getD 0) 0

def allDigits (cs : List Char) : Bool := !cs.isEmpty && cs.all Char.isDigit

namespace Date

def read (cs : List Char) : Option (Date × List Char) := do
  let (year, cs) ← fixedDigits 4 0 cs
  let (month, cs) ← fixedDigits 2 0 (← expect (· = '-') cs)
  let (day, cs) ← fixedDigits 2 0 (← expect (· = '-') cs)
  if Valid ⟨year, month, day⟩ then some (⟨year, month, day⟩, cs) else none

end Date

namespace Offset

def ofParts? (west : Bool) (hours minutes : Nat) : Option Offset :=
  if h : hours < 24 ∧ minutes < 60 then
    some ⟨if west then -(60 * hours + minutes : Nat) else (60 * hours + minutes : Nat), by
      split <;> omega⟩
  else none

def zero : Offset := ⟨0, by decide⟩

def read? : List Char → Option (Option Offset)
  | [] => some none
  | [c] => if c = 'Z' ∨ c = 'z' then some (some zero) else none
  | c :: cs => do
    let west ← if c = '+' then some false else if c = '-' ∨ c = '\u2212' then some true else none
    let (hours, cs) ← fixedDigits 2 0 cs
    let (minutes, cs) ← fixedDigits 2 0 (if cs.head? = some ':' then cs.tail else cs)
    if cs.isEmpty then some <$> ofParts? west hours minutes else none

end Offset

namespace Instant

/-- The first six digits of a fraction, as microseconds; further digits are dropped. -/
def fractionMicros (digits : List Char) : Nat :=
  ofDigits (digits.take 6) * 10 ^ (6 - digits.length)

def readSeconds : List Char → Option (Nat × List Char)
  | ':' :: cs => do
    let (seconds, cs) ← fixedDigits 2 0 cs
    if 60 ≤ seconds then none
    else match cs with
      | c :: rest =>
        if c = '.' ∨ c = ',' then
          let digits := rest.takeWhile Char.isDigit
          if digits.isEmpty then none
          else some (seconds * 10 ^ 6 + fractionMicros digits, rest.dropWhile Char.isDigit)
        else some (seconds * 10 ^ 6, cs)
      | [] => some (seconds * 10 ^ 6, [])
  | cs => some (0, cs)

def readClock (cs : List Char) : Option (Nat × List Char) := do
  let (hours, cs) ← fixedDigits 2 0 cs
  let (minutes, cs) ← fixedDigits 2 0 (← expect (· = ':') cs)
  let (micros, cs) ← readSeconds cs
  if hours < 24 ∧ minutes < 60 then some ((60 * hours + minutes) * (60 * 10 ^ 6) + micros, cs)
  else none

def isSeparator (c : Char) : Bool := c = 'T' || c = 't' || c = '_' || c = ' '

def ofCalendarText? (cs : List Char) : Option Instant := do
  let (date, cs) ← Date.read cs
  let midnight : Nat := date.dayNumber * (86400 * 10 ^ 6)
  if cs.isEmpty then ofWall? midnight none
  else
    let (micros, cs) ← readClock (← expect isSeparator cs)
    ofWall? (midnight + micros) (← Offset.read? cs)

def epoch : Int := ((Date.mk 1970 1 1).dayNumber * (86400 * 10 ^ 6) : Nat)

def ofEpochMicros? (micros : Int) : Option Instant := ofWall? (epoch + micros) (some Offset.zero)

/-- A count of seconds, or of milliseconds when it is beyond 2·10¹⁰. -/
def ofTimestamp? (n : Int) : Option Instant :=
  if n < -2 ^ 63 ∨ 2 ^ 63 ≤ n then none
  else if n.natAbs ≤ 2 * 10 ^ 10 then ofEpochMicros? (n * 10 ^ 6)
  else ofEpochMicros? (n * 10 ^ 3)

/-- A count with a fraction, taken to the nearest microsecond, the later one if two are. -/
def ofReal? : Binary64 → Option Instant
  | .finite s u _ =>
    let scale := if u ≤ 2 * 10 ^ 10 * 2 ^ 1074 then 10 ^ 6 else 10 ^ 3
    ofEpochMicros? ((2 * Binary64.signed s u * scale + 2 ^ 1074).fdiv (2 ^ 1075))
  | _ => none

def ofCountText? (cs : List Char) : Option Instant :=
  let negative := cs.head? = some '-'
  let digits := if negative ∨ cs.head? = some '+' then cs.tail else cs
  let whole := digits.takeWhile Char.isDigit
  match digits.dropWhile Char.isDigit with
  | [] =>
    if whole.isEmpty then none
    else ofTimestamp? (if negative then -(ofDigits whole : Int) else ofDigits whole)
  | '.' :: places =>
    if whole.isEmpty || !allDigits places then none
    else ofReal? (Binary64.ofDecimal negative (ofDigits (whole ++ places)) (-(places.length : Int)))
  | _ => none

def ofText? (text : String) : Option Instant :=
  (ofCalendarText? text.toList).or (ofCountText? text.toList)

end Instant

end KeyedBreaker
