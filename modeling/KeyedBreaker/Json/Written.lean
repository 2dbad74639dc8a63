import KeyedBreaker.Json.Basic
import KeyedBreaker.Text.Quoted

namespace KeyedBreaker.Json

def unitWritten (unit : Nat) : List Char := '\\' :: 'u' :: Text.hexDigits 4 unit

def charWritten (c : Char) : List Char :=
  if c = '\x22' ∨ c = '\\' then ['\\', c]
  else if c = '\n' then ['\\', 'n']
  else if c = '\r' then ['\\', 'r']
  else if c = '\t' then ['\\', 't']
  else if ' ' ≤ c ∧ c ≤ '~' then [c]
  else if c.toNat < 0x10000 then unitWritten c.toNat
  else
    unitWritten (0xd800 + (c.toNat - 0x10000) / 0x400) ++
      unitWritten (0xdc00 + (c.toNat - 0x10000) % 0x400)

def textWritten (s : String) : List Char := '\x22' :: (s.toList.flatMap charWritten ++ ['\x22'])

def intWritten (n : Int) : List Char :=
  if n < 0 then '-' :: Nat.toDigits 10 n.natAbs else Nat.toDigits 10 n.natAbs

/-- Seventeen significant digits tell any two numbers apart. -/
def realWritten : Binary64 → List Char
  | .nan => "NaN".toList
  | .infinite negative => (if negative then "-Infinity" else "Infinity").toList
  | x => (Binary64.generalText 17 x).toList

mutual

def written : Json → List Char
  | .null => "null".toList
  | .bool b => (if b then "true" else "false").toList
  | .int n => intWritten n
  | .real x => realWritten x
  | .text s => textWritten s
  | .array items => '[' :: (itemsWritten items ++ [']'])
  | .object members => '\x7b' :: (membersWritten members ++ ['\x7d'])

def itemsWritten : List Json → List Char
  | [] => []
  | [v] => v.written
  | v :: vs => v.written ++ ',' :: itemsWritten vs

def membersWritten : List (String × Json) → List Char
  | [] => []
  | [(name, v)] => textWritten name ++ ':' :: v.written
  | (name, v) :: members => textWritten name ++ ':' :: (v.written ++ ',' :: membersWritten members)

end

end KeyedBreaker.Json
