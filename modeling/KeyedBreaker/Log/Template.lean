import KeyedBreaker.Failure.Class
import KeyedBreaker.Json.Written
import KeyedBreaker.Text.Numeral

namespace KeyedBreaker.Log

namespace Display

def int (n : Int) : String := String.ofList (Json.intWritten n)

mutual

def quoted : Json → String
  | .null => "None"
  | .bool b => if b then "True" else "False"
  | .int n => int n
  | .real x => x.generalText 17
  | .text s => Text.quoted s
  | .array items => "[" ++ quotedItems items ++ "]"
  | .object members => "\x7b" ++ quotedMembers members ++ "\x7d"

def quotedItems : List Json → String
  | [] => ""
  | [v] => quoted v
  | v :: vs => quoted v ++ ", " ++ quotedItems vs

def quotedMembers : List (String × Json) → String
  | [] => ""
  | [(name, v)] => Text.quoted name ++ ": " ++ quoted v
  | (name, v) :: members =>
    Text.quoted name ++ ": " ++ quoted v ++ ", " ++ quotedMembers members

end

def plain : Json → String
  | .text s => s
  | v => quoted v

def kind : Json → String
  | .null => "NoneType"
  | .bool _ => "bool"
  | .int _ => "int"
  | .real _ => "float"
  | .text _ => "str"
  | .array _ => "list"
  | .object _ => "dict"

end Display

inductive TemplateError where
  | missingArgument
  | unusedArgument
  | unnamedArguments
  | unknownName (name : String)
  | unfinishedName
  | unfinished
  | measure
  | notAnInteger (letter : Char) (kind : String)
  | notANumber (kind : String)
  | numberRange
  | notACharacter
  | characterRange
  | unknownLetter (letter : Char) (index : Nat)
  deriving DecidableEq

namespace TemplateError

def cls : TemplateError → FailureClass
  | .unfinishedName | .unfinished | .unknownLetter .. => .value
  | .numberRange | .characterRange => .overflow
  | .unknownName _ => .lookup
  | _ => .type

def message : TemplateError → String
  | .missingArgument => "not enough arguments for format string"
  | .unusedArgument => "not all arguments converted during string formatting"
  | .unnamedArguments => "format requires a mapping"
  | .unknownName name => name
  | .unfinishedName => "incomplete format key"
  | .unfinished => "incomplete format"
  | .measure => "* wants int"
  | .notAnInteger letter kind =>
    "%" ++ letter.toString ++ " format: " ++
      (if letter = 'x' ∨ letter = 'X' ∨ letter = 'o' then "an integer" else "a real number") ++
      " is required, not " ++ kind
  | .notANumber kind => "must be real number, not " ++ kind
  | .numberRange => "int too large to convert to float"
  | .notACharacter => "%c requires int or char"
  | .characterRange => "%c arg not in range(0x110000)"
  | .unknownLetter letter index =>
    "unsupported format character '" ++
      (if '\x1f' ≤ letter ∧ letter ≤ '~' then letter.toString else "?") ++ "' (0x" ++
      String.ofList (Nat.toDigits 16 letter.toNat) ++ ") at index " ++ toString index

end TemplateError

/-- The arguments that are left. A single map gives its members by their names, and is itself an
argument until one of them is asked for. -/
structure Supply where
  members : Option (List (String × Json))
  left : List Json

namespace Supply

def ofArguments : List Json → Supply
  | [.object (m :: ms)] => ⟨some (m :: ms), [.object (m :: ms)]⟩
  | args => ⟨none, args⟩

def next (s : Supply) : Except TemplateError (Json × Supply) :=
  match s.left with
  | [] => .error .missingArgument
  | v :: left => .ok (v, { s with left })

def choose (s : Supply) (name : String) : Except TemplateError Supply :=
  match s.members with
  | none => .error .unnamedArguments
  | some members =>
    match Json.member? name members with
    | none => .error (.unknownName name)
    | some v => .ok { s with left := [v] }

def isSpent (s : Supply) : Bool := s.members.isSome || s.left.isEmpty

end Supply

structure Place where
  flags : List Char
  width : Nat
  precision : Option Nat
  letter : Char

namespace Place

def has (p : Place) (flag : Char) : Bool := p.flags.contains flag

def padded (p : Place) (text : List Char) : List Char :=
  let fill := List.replicate (p.width - text.length) ' '
  if p.has '-' then text ++ fill else fill ++ text

def showText (p : Place) (text : String) : List Char :=
  p.padded (match p.precision with
    | none => text.toList
    | some n => text.toList.take n)

/-- A sign, a mark of the base, and digits; zeros that fill the width stand before the digits. -/
def showNumber (p : Place) (negative : Bool) (mark digits : List Char) : List Char :=
  let sign := if negative then ['-'] else if p.has '+' then ['+'] else if p.has ' ' then [' '] else []
  let zeros :=
    if p.has '0' && !p.has '-' then p.width - (sign.length + mark.length + digits.length) else 0
  p.padded (sign ++ mark ++ List.replicate zeros '0' ++ digits)

def base (letter : Char) : Nat :=
  if letter = 'x' ∨ letter = 'X' then 16 else if letter = 'o' then 8 else 10

def showInt (p : Place) (n : Int) : List Char :=
  let digits := Nat.toDigits (base p.letter) n.natAbs
  let digits := if p.letter = 'X' then digits.map Char.toUpper else digits
  let mark := if p.has '#' ∧ base p.letter ≠ 10 then ['0', p.letter] else []
  p.showNumber (n < 0) mark (List.replicate (p.precision.getD 0 - digits.length) '0' ++ digits)

def magnitude (letter : Char) (precision units : Nat) : List Char :=
  if letter = 'f' then Binary64.fixedText precision units
  else if letter = 'e' then Binary64.exponentialText precision units
  else Binary64.magnitudeText (max precision 1) units

def showReal (p : Place) (negative : Bool) (units : Nat) : List Char :=
  let text := magnitude p.letter.toLower (p.precision.getD 6) units
  p.showNumber negative [] (if p.letter.isUpper then text.map Char.toUpper else text)

def isIntLetter (c : Char) : Bool :=
  c = 'd' || c = 'i' || c = 'u' || c = 'x' || c = 'X' || c = 'o'

def isRealLetter (c : Char) : Bool :=
  c = 'f' || c = 'F' || c = 'e' || c = 'E' || c = 'g' || c = 'G'

def applyInt (p : Place) : Json → Except TemplateError (List Char)
  | .int n => .ok (p.showInt n)
  | .bool b => .ok (p.showInt (if b then 1 else 0))
  | v => .error (.notAnInteger p.letter (Display.kind v))

def applyReal (p : Place) (x : Binary64) : Except TemplateError (List Char) :=
  match x with
  | .finite negative units _ => .ok (p.showReal negative units)
  | _ => .error .numberRange

def applyChar (p : Place) : Json → Except TemplateError (List Char)
  | .text s => if s.length = 1 then .ok (p.padded s.toList) else .error .notACharacter
  | .int n =>
    if 0 ≤ n ∧ n < 0x110000 then .ok (p.padded [Char.ofNat n.toNat]) else .error .characterRange
  | .bool b => .ok (p.padded [Char.ofNat (if b then 1 else 0)])
  | _ => .error .notACharacter

def ascii (text : String) : String :=
  String.ofList (text.toList.flatMap fun c =>
    if c ≤ '\x7f' then [c] else Text.escapeCode c.toNat)

def apply (p : Place) (index : Nat) (v : Json) : Except TemplateError (List Char) :=
  if p.letter = 's' then .ok (p.showText (Display.plain v))
  else if p.letter = 'r' then .ok (p.showText (Display.quoted v))
  else if p.letter = 'a' then .ok (p.showText (ascii (Display.quoted v)))
  else if p.letter = 'c' then p.applyChar v
  else if isIntLetter p.letter then p.applyInt v
  else if isRealLetter p.letter then
    match v with
    | .int n => p.applyReal (Binary64.ofInt n)
    | .bool b => p.applyReal (Binary64.ofInt (if b then 1 else 0))
    | .real x => p.applyReal x
    | v => .error (.notANumber (Display.kind v))
  else .error (.unknownLetter p.letter index)

end Place

def splitName : Nat → List Char → Option (List Char × List Char)
  | _, [] => none
  | 0, ')' :: cs => some ([], cs)
  | depth + 1, ')' :: cs => (splitName depth cs).map fun (name, cs) => (')' :: name, cs)
  | depth, '(' :: cs => (splitName (depth + 1) cs).map fun (name, cs) => ('(' :: name, cs)
  | depth, c :: cs => (splitName depth cs).map fun (name, cs) => (c :: name, cs)

def chooseNamed (s : Supply) : List Char → Except TemplateError (Supply × List Char)
  | '(' :: cs =>
    if s.members.isNone then .error .unnamedArguments
    else match splitName 0 cs with
      | none => .error .unfinishedName
      | some (name, cs) => do .ok (← s.choose (String.ofList name), cs)
  | cs => .ok (s, cs)

def measure (s : Supply) : List Char → Except TemplateError (Int × Supply × List Char)
  | '*' :: cs => do
    match ← s.next with
    | (.int n, s) => .ok (n, s, cs)
    | (.bool b, s) => .ok (if b then 1 else 0, s, cs)
    | _ => .error .measure
  | cs => .ok (ofDigits (cs.takeWhile Char.isDigit), s, cs.dropWhile Char.isDigit)

def isFlag (c : Char) : Bool := c = '-' || c = '+' || c = ' ' || c = '0' || c = '#'

def isSizeLetter (c : Char) : Bool := c = 'h' || c = 'l' || c = 'L'

/-- What follows the name of a place, up to its letter. A negative width is one with its fill on the
right. -/
def readPlace (s : Supply) (cs : List Char) : Except TemplateError (Place × Supply × List Char) := do
  let flags := cs.takeWhile isFlag
  let (width, s, cs) ← measure s (cs.dropWhile isFlag)
  let flags := if width < 0 then '-' :: flags else flags
  let (precision, s, cs) ← match cs with
    | '.' :: cs => do
      let (n, s, cs) ← measure s cs
      .ok (some n.toNat, s, cs)
    | cs => .ok (none, s, cs)
  let cs := match cs with
    | c :: cs => if isSizeLetter c then cs else c :: cs
    | [] => []
  match cs with
  | [] => .error .unfinished
  | letter :: rest => .ok (⟨flags, width.natAbs, precision, letter⟩, s, rest)

/-- The text from a position on. Each step reads at least one character, so the length of the
template bounds their number. -/
def fillFrom (size : Nat) : Nat → List Char → Supply → Except TemplateError (List Char)
  | fuel + 1, '%' :: '%' :: cs, s => do .ok ('%' :: (← fillFrom size fuel cs s))
  | fuel + 1, '%' :: cs, s => do
    let (s, cs) ← chooseNamed s cs
    let (p, s, rest) ← readPlace s cs
    let (v, s) ← s.next
    let shown ← p.apply (size - rest.length - 1) v
    .ok (shown ++ (← fillFrom size fuel rest s))
  | fuel + 1, c :: cs, s => do .ok (c :: (← fillFrom size fuel cs s))
  | _, _, s => if s.isSpent then .ok [] else .error .unusedArgument

def fill (template : String) (args : List Json) : Except TemplateError String :=
  if args.isEmpty then .ok template
  else
    let cs := template.toList
    (fillFrom cs.length cs.length cs (Supply.ofArguments args)).map String.ofList

end KeyedBreaker.Log
