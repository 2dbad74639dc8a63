import KeyedBreaker.Instances

namespace KeyedBreaker.Rounding

variable {n d : Nat}

def nearestEven (n d : Nat) : Nat :=
  if 2 * (n % d) < d then n / d
  else if d < 2 * (n % d) then n / d + 1
  else n / d + n / d % 2

def nearestUp (n d : Nat) : Nat :=
  if 2 * (n % d) < d then n / d else n / d + 1

theorem div_le_nearestEven : n / d ≤ nearestEven n d := by
  unfold nearestEven
  split <;> try split
  all_goals omega

theorem nearestEven_le_div_add_one : nearestEven n d ≤ n / d + 1 := by
  unfold nearestEven
  split <;> try split
  all_goals omega

theorem nearestEven_error (hd : 0 < d) :
    2 * (nearestEven n d * d) ≤ 2 * n + d ∧ 2 * n ≤ 2 * (nearestEven n d * d) + d := by
  have hn := Nat.div_add_mod n d
  have hr := Nat.mod_lt n hd
  have hs : (n / d + 1) * d = d * (n / d) + d := by rw [Nat.add_mul, Nat.mul_comm, Nat.one_mul]
  have hc : n / d * d = d * (n / d) := Nat.mul_comm _ _
  unfold nearestEven
  split
  · omega
  · split
    · omega
    · rcases Nat.mod_two_eq_zero_or_one (n / d) with h | h
      · rw [h, Nat.add_zero]
        omega
      · rw [h]
        omega

theorem nearestEven_mul_right (hd : 0 < d) (q : Nat) : nearestEven (q * d) d = q := by
  simp [nearestEven, hd]

end KeyedBreaker.Rounding
