import KeyedBreaker.Calendar.Reading
import KeyedBreaker.Text.Blank

namespace KeyedBreaker.Text

def isGrouped : List Char → Bool
  | [] => false
  | [c] => c.isDigit
  | c :: d :: cs => c.isDigit && if d = '_' then isGrouped cs else isGrouped (d :: cs)

def isSign (c : Char) : Bool := c = '+' || c = '-'

def unsigned : List Char → List Char
  | [] => []
  | c :: cs => if isSign c then cs else c :: cs

def isZeroFraction : List Char → Bool
  | [] => true
  | c :: cs => c = '.' && !cs.isEmpty && cs.all (· = '0')

def int? (text : String) : Option Int :=
  let cs := strip isWhiteSpace text.toList
  let whole := (unsigned cs).takeWhile fun c => c.isDigit || c = '_'
  let rest := (unsigned cs).dropWhile fun c => c.isDigit || c = '_'
  if isGrouped whole && isZeroFraction rest then
    let n : Int := ofDigits (whole.filter (· ≠ '_'))
    some (if cs.head? = some '-' then -n else n)
  else none

def exponent? (cs : List Char) : Option Int :=
  if allDigits (unsigned cs) then
    let n : Int := ofDigits (unsigned cs)
    some (if cs.head? = some '-' then -n else n)
  else none

def decimal? (negative : Bool) (cs : List Char) : Option Binary64 :=
  let whole := cs.takeWhile Char.isDigit
  let rest := cs.dropWhile Char.isDigit
  let places := if rest.head? = some '.' then rest.tail.takeWhile Char.isDigit else []
  let rest := if rest.head? = some '.' then rest.tail.dropWhile Char.isDigit else rest
  if whole.isEmpty && places.isEmpty then none
  else do
    let e ← match rest with
      | [] => some 0
      | c :: rest => if c = 'e' ∨ c = 'E' then exponent? rest else none
    some (Binary64.ofDecimal negative (ofDigits (whole ++ places)) (e - places.length))

def plainReal? (cs : List Char) : Option Binary64 :=
  let negative := cs.head? = some '-'
  let word := String.ofList ((unsigned cs).map Char.toLower)
  if word = "inf" ∨ word = "infinity" then some (.infinite negative)
  else if word = "nan" then some .nan
  else decimal? negative (unsigned cs)

/-- Every low line stands between two digits. -/
def isSpaced : List Char → Bool
  | [] => true
  | [c] => c ≠ '_'
  | c :: d :: cs =>
    if c = '_' then false
    else if d = '_' then c.isDigit && (cs.head?.any Char.isDigit) && isSpaced cs
    else isSpaced (d :: cs)

/-- A number with or without a fraction. Blanks around it are allowed if it has no low lines. -/
def real? (text : String) : Option Binary64 :=
  let cs := text.toList
  if cs.contains '_' then
    if isSpaced cs then plainReal? (cs.filter (· ≠ '_')) else none
  else plainReal? (strip isWhiteSpace cs)

end KeyedBreaker.Text
