import KeyedBreaker.Proofs.Binary64.Monotone

namespace KeyedBreaker.Binary64

open Rounding

variable {a b d d' e k n n' : Nat}

/-- The quotient `n / d` is at most half of `e` away. -/
structure Near (n d e a : Nat) : Prop where
  below : 2 * (a * d) ≤ 2 * n + d * e
  above : 2 * n ≤ 2 * (a * d) + d * e

theorem near_roundUnits (hd : 0 < d) (h : n < 2 ^ 53 * 2 ^ k * d) :
    Near n d (2 ^ k) (roundUnits n d) := by
  rw [← Nat.pow_add] at h
  let places := (n / d).log2 - 52
  have hplaces : places ≤ k := by
    by_cases h0 : n / d = 0
    · simp [places, h0]
    · have hlog : (n / d).log2 < 53 + k := (Nat.log2_lt h0).2 ((Nat.div_lt_iff_lt_mul hd).2 h)
      omega
  have hunit : d * 2 ^ places ≤ d * 2 ^ k :=
    Nat.mul_le_mul_left d (Nat.pow_le_pow_right (by decide) hplaces)
  obtain ⟨hbelow, habove⟩ := nearestEven_error (n := n) (Nat.mul_pos hd (Nat.two_pow_pos places))
  have hvalue : roundUnits n d * d = nearestEven n (d * 2 ^ places) * (d * 2 ^ places) := by
    rw [roundUnits]
    ring
  constructor
  · rw [hvalue]
    omega
  · rw [hvalue]
    omega

theorem Near.lt (h : Near n d e a) (h' : Near n' d' e b) (hgap : n * d' + d * d' * e < n' * d) :
    a < b := by
  by_contra hab
  have hle : b * (d * d') ≤ a * (d * d') := Nat.mul_le_mul_right _ (Nat.le_of_not_lt hab)
  have hlarge : 2 * (n' * d) ≤ 2 * (b * (d * d')) + d * d' * e :=
    calc 2 * (n' * d) = 2 * n' * d := by ring
      _ ≤ (2 * (b * d') + d' * e) * d := Nat.mul_le_mul_right d h'.above
      _ = 2 * (b * (d * d')) + d * d' * e := by ring
  have hsmall : 2 * (a * (d * d')) ≤ 2 * (n * d') + d * d' * e :=
    calc 2 * (a * (d * d')) = 2 * (a * d) * d' := by ring
      _ ≤ (2 * n + d * e) * d' := Nat.mul_le_mul_right d' h.below
      _ = 2 * (n * d') + d * d' * e := by ring
  omega

end KeyedBreaker.Binary64
