import KeyedBreaker.Rounding

namespace KeyedBreaker

open Rounding

def Binary64.threshold : Nat := 2 ^ 2098

def Binary64.Representable (units : Nat) : Prop :=
  units < threshold ∧ 2 ^ (units.log2 - 52) ∣ units

instance (units : Nat) : Decidable (Binary64.Representable units) :=
  inferInstanceAs (Decidable (_ ∧ _))

inductive Binary64 where
  | finite (negative : Bool) (units : Nat) (representable : Binary64.Representable units)
  | infinite (negative : Bool)
  | nan
  deriving DecidableEq

namespace Binary64

/-- The magnitude nearest to `n / d` units among those with 53 significant bits. -/
def roundUnits (n d : Nat) : Nat :=
  nearestEven n (d * 2 ^ ((n / d).log2 - 52)) * 2 ^ ((n / d).log2 - 52)

theorem lt_two_pow_log2 (n : Nat) : n < 2 ^ (n.log2 + 1) := Nat.lt_log2_self

theorem roundUnits_dvd (n d : Nat) : 2 ^ ((roundUnits n d).log2 - 52) ∣ roundUnits n d := by
  let k := (n / d).log2 - 52
  have hq : n / (d * 2 ^ k) < 2 ^ 53 := by
    rw [← Nat.div_div_eq_div_mul, Nat.div_lt_iff_lt_mul (Nat.two_pow_pos k), ← Nat.pow_add]
    exact Nat.lt_of_lt_of_le (lt_two_pow_log2 _) (Nat.pow_le_pow_right (by decide) (by omega))
  have hm : nearestEven n (d * 2 ^ k) ≤ 2 ^ 53 :=
    Nat.le_trans nearestEven_le_div_add_one (by omega)
  change 2 ^ ((nearestEven n (d * 2 ^ k) * 2 ^ k).log2 - 52) ∣ nearestEven n (d * 2 ^ k) * 2 ^ k
  generalize nearestEven n (d * 2 ^ k) = m at hm
  rcases Nat.lt_or_eq_of_le hm with hlt | rfl
  · refine Nat.dvd_trans (Nat.pow_dvd_pow 2 ?_) (Nat.dvd_mul_left (2 ^ k) m)
    by_cases h0 : m * 2 ^ k = 0
    · simp [h0]
    · have : (m * 2 ^ k).log2 < 53 + k := by
        rw [Nat.log2_lt h0, Nat.pow_add]
        exact Nat.mul_lt_mul_of_pos_right hlt (Nat.two_pow_pos k)
      omega
  · rw [← Nat.pow_add, Nat.log2_two_pow]
    exact Nat.pow_dvd_pow 2 (by omega)

def ofUnits (negative : Bool) (n d : Nat) : Binary64 :=
  if h : roundUnits n d < threshold then
    .finite negative (roundUnits n d) ⟨h, roundUnits_dvd n d⟩
  else .infinite negative

theorem representable_zero : Representable 0 := by decide +kernel

def signedZero (negative : Bool) : Binary64 := .finite negative 0 representable_zero

def zero : Binary64 := signedZero false

/-- The number nearest to the quotient of two integers; a quotient of zero is positive. -/
def ofRatio (n : Int) (d : Nat) : Binary64 := ofUnits (n < 0) (n.natAbs * 2 ^ 1074) d

def ofInt (n : Int) : Binary64 := ofRatio n 1

def isFinite : Binary64 → Bool
  | .finite .. => true
  | _ => false

def isNaN : Binary64 → Bool
  | .nan => true
  | _ => false

def signed (negative : Bool) (units : Nat) : Int := if negative then -units else units

protected def neg : Binary64 → Binary64
  | .finite s u h => .finite (!s) u h
  | .infinite s => .infinite (!s)
  | .nan => .nan

/-- An exact zero sum is positive unless both summands are negative. -/
protected def add : Binary64 → Binary64 → Binary64
  | .finite s u _, .finite t v _ =>
    let sum := signed s u + signed t v
    if sum = 0 then signedZero (s && t) else ofUnits (sum < 0) sum.natAbs 1
  | .infinite s, .infinite t => if s = t then .infinite s else .nan
  | .infinite s, .finite .. => .infinite s
  | .finite .., .infinite t => .infinite t
  | _, _ => .nan

protected def sub (x y : Binary64) : Binary64 := x.add y.neg

protected def mul : Binary64 → Binary64 → Binary64
  | .finite s u _, .finite t v _ => ofUnits (s != t) (u * v) (2 ^ 1074)
  | .infinite s, .infinite t => .infinite (s != t)
  | .infinite s, .finite t v _ => if v = 0 then .nan else .infinite (s != t)
  | .finite s u _, .infinite t => if u = 0 then .nan else .infinite (s != t)
  | _, _ => .nan

instance : Neg Binary64 := ⟨Binary64.neg⟩
instance : Add Binary64 := ⟨Binary64.add⟩
instance : Sub Binary64 := ⟨Binary64.sub⟩
instance : Mul Binary64 := ⟨Binary64.mul⟩

protected def lt : Binary64 → Binary64 → Bool
  | .finite s u _, .finite t v _ => signed s u < signed t v
  | .infinite s, .infinite t => s && !t
  | .infinite s, .finite .. => s
  | .finite .., .infinite t => !t
  | _, _ => false

protected def le : Binary64 → Binary64 → Bool
  | .finite s u _, .finite t v _ => signed s u ≤ signed t v
  | .infinite s, .infinite t => s || !t
  | .infinite s, .finite .. => s
  | .finite .., .infinite t => !t
  | _, _ => false

instance : LT Binary64 := ⟨fun x y => x.lt y = true⟩
instance : LE Binary64 := ⟨fun x y => x.le y = true⟩
instance (x y : Binary64) : Decidable (x < y) := inferInstanceAs (Decidable (_ = true))
instance (x y : Binary64) : Decidable (x ≤ y) := inferInstanceAs (Decidable (_ = true))

/-- The first argument unless the second is larger, so an incomparable pair gives the first. -/
protected def max (x y : Binary64) : Binary64 := if x < y then y else x

protected def min (x y : Binary64) : Binary64 := if y < x then y else x

def toInt? : Binary64 → Option Int
  | .finite s u _ => if u % 2 ^ 1074 = 0 then some (signed s (u / 2 ^ 1074)) else none
  | _ => none

def fraction : Binary64 → Binary64
  | .finite s u _ => ofUnits s (u % 2 ^ 1074) 1
  | x => x

/-- The nearest whole number, ties to even; none for what is not finite. -/
def nearestInt? : Binary64 → Option Int
  | .finite s u _ => some (signed s (nearestEven u (2 ^ 1074)))
  | _ => none

def roundPlaces (places : Nat) : Binary64 → Binary64
  | .finite s u _ => ofUnits s (nearestEven (u * 10 ^ places) (2 ^ 1074) * 2 ^ 1074) (10 ^ places)
  | x => x

def bits? : Binary64 → Option Nat
  | .finite s u _ =>
    let magnitude :=
      if u < 2 ^ 52 then u
      else (u.log2 - 51) * 2 ^ 52 + (u / 2 ^ (u.log2 - 52) - 2 ^ 52)
    some (magnitude + if s then 2 ^ 63 else 0)
  | .infinite s => some (0x7ff * 2 ^ 52 + if s then 2 ^ 63 else 0)
  | .nan => none

end Binary64

end KeyedBreaker
