import KeyedBreaker.Calendar.Reading
import KeyedBreaker.Json.Basic

namespace KeyedBreaker.Json

inductive Token where
  | openArray
  | closeArray
  | openObject
  | closeObject
  | colon
  | comma
  | value (v : Json)

def exponent? (cs : List Char) : Option Int :=
  let digits := if cs.head? = some '-' ∨ cs.head? = some '+' then cs.tail else cs
  if allDigits digits then
    some (if cs.head? = some '-' then -(ofDigits digits : Int) else ofDigits digits)
  else none

def scale? (cs : List Char) : Option (List Char × Int) :=
  let places := if cs.head? = some '.' then cs.tail.takeWhile Char.isDigit else []
  let rest := if cs.head? = some '.' then cs.tail.dropWhile Char.isDigit else cs
  if cs.head? = some '.' ∧ places = [] then none
  else match rest with
    | [] => some (places, 0)
    | c :: rest => if c = 'e' ∨ c = 'E' then (exponent? rest).map (places, ·) else none

def number? (cs : List Char) : Option Json :=
  let negative := cs.head? = some '-'
  let digits := if negative then cs.tail else cs
  let whole := digits.takeWhile Char.isDigit
  let rest := digits.dropWhile Char.isDigit
  if whole = [] ∨ (whole.head? = some '0' ∧ whole ≠ ['0']) then none
  else if rest = [] then some (.int (if negative then -(ofDigits whole : Int) else ofDigits whole))
  else (scale? rest).map fun (places, e) =>
    .real (Binary64.ofDecimal negative (ofDigits (whole ++ places)) (e - places.length))

def words : List (List Char × Json) :=
  [("null".toList, .null), ("true".toList, .bool true), ("false".toList, .bool false),
    ("NaN".toList, .real .nan), ("Infinity".toList, .real (.infinite false)),
    ("-Infinity".toList, .real (.infinite true))]

def atom? (cs : List Char) : Option Json := (words.lookup cs).or (number? cs)

def mark? (c : Char) : Option Token :=
  if c = '[' then some .openArray
  else if c = ']' then some .closeArray
  else if c = '\x7b' then some .openObject
  else if c = '\x7d' then some .closeObject
  else if c = ':' then some .colon
  else if c = ',' then some .comma
  else none

def isSpace (c : Char) : Bool := c = ' ' || c = '\t' || c = '\n' || c = '\r'

def simpleEscape? (c : Char) : Option Char :=
  if c = '\x22' ∨ c = '\\' ∨ c = '/' then some c
  else if c = 'b' then some '\x08'
  else if c = 'f' then some '\x0c'
  else if c = 'n' then some '\n'
  else if c = 'r' then some '\r'
  else if c = 't' then some '\t'
  else none

def hexDigit? (c : Char) : Option Nat :=
  if c.isDigit then some (c.toNat - '0'.toNat)
  else if 'a' ≤ c ∧ c ≤ 'f' then some (c.toNat - 'a'.toNat + 10)
  else if 'A' ≤ c ∧ c ≤ 'F' then some (c.toNat - 'A'.toNat + 10)
  else none

/-- Where the scanner stands. Inside a text it holds the characters so far, last first, and the
first half of a surrogate pair that still lacks its second. -/
inductive Place where
  | between
  | inAtom (chars : List Char)
  | inText (chars : List Char) (high : Option Nat)
  | afterBackslash (chars : List Char) (high : Option Nat)
  | inUnit (chars : List Char) (high : Option Nat) (missing : Nat) (unit : Nat)

structure Scan where
  place : Place
  tokens : List Token

/-- A UTF-16 unit written by an escape: a character, or half of one. -/
def endUnit (chars : List Char) (high : Option Nat) (unit : Nat) : Option Place :=
  match high with
  | none =>
    if 0xd800 ≤ unit ∧ unit < 0xdc00 then some (.inText chars (some unit))
    else if 0xdc00 ≤ unit ∧ unit < 0xe000 then none
    else some (.inText (Char.ofNat unit :: chars) none)
  | some h =>
    if 0xdc00 ≤ unit ∧ unit < 0xe000 then
      some (.inText (Char.ofNat (0x10000 + (h - 0xd800) * 0x400 + (unit - 0xdc00)) :: chars) none)
    else none

def scanBetween (tokens : List Token) (c : Char) : Scan :=
  match mark? c with
  | some t => ⟨.between, t :: tokens⟩
  | none =>
    if isSpace c then ⟨.between, tokens⟩
    else if c = '\x22' then ⟨.inText [] none, tokens⟩
    else ⟨.inAtom [c], tokens⟩

def endAtom (chars : List Char) (tokens : List Token) : Option (List Token) :=
  (atom? chars.reverse).map fun v => .value v :: tokens

def scanChar (s : Scan) (c : Char) : Option Scan :=
  match s.place with
  | .between => some (scanBetween s.tokens c)
  | .inAtom chars =>
    if (mark? c).isSome || isSpace c || c = '\x22' then
      (endAtom chars s.tokens).map (scanBetween · c)
    else some ⟨.inAtom (c :: chars), s.tokens⟩
  | .inText chars high =>
    if c = '\\' then some ⟨.afterBackslash chars high, s.tokens⟩
    else if high.isSome || c < ' ' then none
    else if c = '\x22' then some ⟨.between, .value (.text (String.ofList chars.reverse)) :: s.tokens⟩
    else some ⟨.inText (c :: chars) none, s.tokens⟩
  | .afterBackslash chars high =>
    if c = 'u' then some ⟨.inUnit chars high 4 0, s.tokens⟩
    else if high.isSome then none
    else (simpleEscape? c).map fun e => ⟨.inText (e :: chars) none, s.tokens⟩
  | .inUnit chars high missing unit => do
    let unit := 16 * unit + (← hexDigit? c)
    if missing ≤ 1 then (endUnit chars high unit).map (⟨·, s.tokens⟩)
    else some ⟨.inUnit chars high (missing - 1) unit, s.tokens⟩

def tokens? (cs : List Char) : Option (List Token) := do
  let s ← cs.foldlM scanChar ⟨.between, []⟩
  match s.place with
  | .between => some s.tokens.reverse
  | .inAtom chars => (endAtom chars s.tokens).map List.reverse
  | _ => none

end KeyedBreaker.Json
