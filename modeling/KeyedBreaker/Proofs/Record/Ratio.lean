import KeyedBreaker.Record.Basic

namespace KeyedBreaker

namespace Binary64

theorem two_pow_log2_sub_le (q k : Nat) : 2 ^ (q.log2 - k) ≤ q + 1 := by
  by_cases hq : q = 0
  · subst hq
    have h0 : Nat.log2 0 - k = 0 := by simp
    rw [h0]
    decide
  · have h : 2 ^ (q.log2 - k) ≤ q :=
      Nat.le_trans (Nat.pow_le_pow_right (by decide) (Nat.sub_le _ _)) (Nat.log2_self_le hq)
    omega

/-- Rounding at most doubles a quotient and adds one unit. -/
theorem roundUnits_le (n d : Nat) : roundUnits n d ≤ 2 * (n / d) + 1 := by
  have hpow := two_pow_log2_sub_le (n / d) 52
  have hround : Rounding.nearestEven n (d * 2 ^ ((n / d).log2 - 52)) ≤
      n / d / 2 ^ ((n / d).log2 - 52) + 1 := by
    rw [Nat.div_div_eq_div_mul]
    exact Rounding.nearestEven_le_div_add_one
  calc roundUnits n d
      ≤ (n / d / 2 ^ ((n / d).log2 - 52) + 1) * 2 ^ ((n / d).log2 - 52) :=
        Nat.mul_le_mul_right _ hround
    _ = n / d / 2 ^ ((n / d).log2 - 52) * 2 ^ ((n / d).log2 - 52) + 2 ^ ((n / d).log2 - 52) := by
        rw [Nat.add_mul, Nat.one_mul]
    _ ≤ n / d + 2 ^ ((n / d).log2 - 52) := Nat.add_le_add_right (Nat.div_mul_le_self _ _) _
    _ ≤ 2 * (n / d) + 1 := by omega

theorem roundUnits_lt_two_pow {n d a b : Nat} (h : n ≤ d) (hab : a + 2 ≤ b) :
    roundUnits (n * 2 ^ a) d < 2 ^ b := by
  have hq : n * 2 ^ a / d ≤ 2 ^ a := by
    refine Nat.div_le_of_le_mul ?_
    exact Nat.mul_le_mul_right _ h
  have hpow : 2 ^ a * 4 ≤ 2 ^ b := by
    rw [show 2 ^ a * 4 = 2 ^ (a + 2) from (Nat.pow_add 2 a 2).symm]
    exact Nat.pow_le_pow_right (by decide) hab
  have hpos := Nat.two_pow_pos a
  have hle := roundUnits_le (n * 2 ^ a) d
  omega

theorem roundUnits_lt_threshold {n d : Nat} (h : n ≤ d) :
    roundUnits (n * 2 ^ 1074) d < threshold := by
  -- Delta alone: an unfolding by equations would have the power evaluated.
  delta threshold
  exact roundUnits_lt_two_pow (a := 1074) (b := 2098) h (by decide)

end Binary64

namespace Record

theorem quotient_eq_ok {n d : Int} (hn : 0 ≤ n) (h : n ≤ d) : ∃ x, quotient n d = .ok x := by
  have hlt := Binary64.roundUnits_lt_threshold (show n.natAbs ≤ d.natAbs by omega)
  rw [quotient, Binary64.ofUnits, dif_pos hlt]
  exact ⟨_, rfl⟩

end Record

end KeyedBreaker
