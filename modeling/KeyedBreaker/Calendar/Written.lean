import KeyedBreaker.Calendar.Instant

namespace KeyedBreaker

def paddedDigits : Nat → Nat → List Char
  | 0, _ => []
  | width + 1, n => paddedDigits width (n / 10) ++ [Nat.digitChar (n % 10)]

namespace Date

def written (d : Date) : List Char :=
  paddedDigits 4 d.year ++ '-' :: paddedDigits 2 d.month ++ '-' :: paddedDigits 2 d.day

end Date

namespace Offset

def written (o : Offset) : List Char :=
  (if o.minutes < 0 then '-' else '+') ::
    (paddedDigits 2 (o.minutes.natAbs / 60) ++ ':' :: paddedDigits 2 (o.minutes.natAbs % 60))

end Offset

namespace Instant

def clockWritten (micros : Nat) : List Char :=
  let s := micros / 10 ^ 6
  paddedDigits 2 (s / 3600) ++ ':' :: paddedDigits 2 (s / 60 % 60) ++ ':' :: paddedDigits 2 (s % 60)
    ++ (if micros % 10 ^ 6 = 0 then [] else '.' :: paddedDigits 6 (micros % 10 ^ 6))

/-- The written form in which an offset of zero is spelled `zero`. -/
def written (zero : List Char) (t : Instant) : List Char :=
  (Date.ofDayNumber (t.wall / (86400 * 10 ^ 6))).written
    ++ 'T' :: clockWritten (t.wall % (86400 * 10 ^ 6))
    ++ match t.offset with
      | none => []
      | some o => if o.minutes = 0 then zero else o.written

end Instant

end KeyedBreaker
