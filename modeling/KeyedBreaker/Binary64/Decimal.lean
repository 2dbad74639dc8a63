import KeyedBreaker.Binary64.Basic

namespace KeyedBreaker.Binary64

open Rounding

/-- The number nearest to `digits * 10 ^ exponent`. An exponent beyond the range of the format is
settled without computing the power. -/
def ofDecimal (negative : Bool) (digits : Nat) (exponent : Int) : Binary64 :=
  if digits = 0 then signedZero negative
  else if 400 < exponent then .infinite negative
  else if exponent < -(400 + (digits.log2 : Int)) then signedZero negative
  else if 0 ≤ exponent then ofUnits negative (digits * 10 ^ exponent.toNat * 2 ^ 1074) 1
  else ofUnits negative (digits * 2 ^ 1074) (10 ^ (-exponent).toNat)

def leadingExponent (units : Nat) : Int :=
  (Nat.toDigits 10 (units * 10 ^ 330 / 2 ^ 1074)).length - 331

def significand (count units : Nat) : Nat × Int :=
  let e := leadingExponent units
  let shift : Int := count - 1 - e
  let n :=
    if 0 ≤ shift then nearestEven (units * 10 ^ shift.toNat) (2 ^ 1074)
    else nearestEven units (2 ^ 1074 * 10 ^ (-shift).toNat)
  if n = 10 ^ count then (10 ^ (count - 1), e + 1) else (n, e)

def fractionText (digits : List Char) : List Char :=
  match (digits.reverse.dropWhile (· = '0')).reverse with
  | [] => []
  | ds => '.' :: ds

def exponentText (e : Int) : List Char :=
  let ds := Nat.toDigits 10 e.natAbs
  'e' :: (if e < 0 then '-' else '+') :: (if ds.length < 2 then '0' :: ds else ds)

/-- Positional from 10⁻⁴ up to the count of digits, with an exponent outside. -/
def magnitudeText (count units : Nat) : List Char :=
  if units = 0 then ['0']
  else
    let (n, e) := significand count units
    let ds := Nat.toDigits 10 n
    if e < -4 ∨ count ≤ e then ds.take 1 ++ fractionText (ds.drop 1) ++ exponentText e
    else if e < 0 then '0' :: fractionText (List.replicate (-e - 1).toNat '0' ++ ds)
    else ds.take (e + 1).toNat ++ fractionText (ds.drop (e + 1).toNat)

def fixedText (places units : Nat) : List Char :=
  let n := nearestEven (units * 10 ^ places) (2 ^ 1074)
  let ds := Nat.toDigits 10 n
  let ds := List.replicate (places + 1 - ds.length) '0' ++ ds
  ds.take (ds.length - places) ++ if places = 0 then [] else '.' :: ds.drop (ds.length - places)

def exponentialText (places units : Nat) : List Char :=
  let (n, e) := if units = 0 then (0, 0) else significand (places + 1) units
  let ds := Nat.toDigits 10 n
  let ds := ds ++ List.replicate (places + 1 - ds.length) '0'
  ds.take 1 ++ (if places = 0 then [] else '.' :: ds.drop 1) ++ exponentText e

def signText (negative : Bool) : String := if negative then "-" else ""

def generalText (count : Nat) : Binary64 → String
  | .finite s u _ => signText s ++ String.ofList (magnitudeText count u)
  | .infinite s => signText s ++ "inf"
  | .nan => "nan"

end KeyedBreaker.Binary64
