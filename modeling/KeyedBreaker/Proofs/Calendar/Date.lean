import KeyedBreaker.Proofs.Calendar.Digits

namespace KeyedBreaker.Date

theorem sum_monthLengths (year : Nat) :
    (monthLengths year).sum = 365 + if isLeap year then 1 else 0 := by
  cases h : isLeap year <;> simp [monthLengths, h]

theorem daysBeforeYear_succ (y : Nat) :
    daysBeforeYear (y + 2) = daysBeforeYear (y + 1) + (monthLengths (y + 1)).sum := by
  have h₁ : (y + 1) / 4 = y / 4 + if (y + 1) % 4 = 0 then 1 else 0 := by split <;> omega
  have h₂ : (y + 1) / 100 = y / 100 + if (y + 1) % 100 = 0 then 1 else 0 := by split <;> omega
  have h₃ : (y + 1) / 400 = y / 400 + if (y + 1) % 400 = 0 then 1 else 0 := by split <;> omega
  have h₄ : (if isLeap (y + 1) then 1 else 0) + (if (y + 1) % 100 = 0 then 1 else 0) =
      (if (y + 1) % 4 = 0 then 1 else 0) + (if (y + 1) % 400 = 0 then 1 else 0) := by
    by_cases ha : (y + 1) % 4 = 0 <;> by_cases hb : (y + 1) % 100 = 0 <;>
      by_cases hc : (y + 1) % 400 = 0 <;> simp [isLeap, ha, hb, hc] <;> omega
  rw [sum_monthLengths]
  simp only [daysBeforeYear, Nat.add_sub_cancel, show y + 2 - 1 = y + 1 from rfl]
  omega

theorem daysBeforeYear_mono : Monotone daysBeforeYear := by
  refine monotone_nat_of_le_succ fun y => ?_
  cases y with
  | zero => decide
  | succ y =>
    rw [daysBeforeYear_succ]
    exact Nat.le_add_right _ _

/-- The days before a year, by its era, century, leap cycle and position. -/
theorem daysBeforeYear_parts (e c q k : Nat) (hc : c ≤ 3) (hq : q ≤ 24) (hk : k ≤ 3) :
    daysBeforeYear (400 * e + 100 * c + 4 * q + k + 1) =
      146097 * e + 36524 * c + 1461 * q + 365 * k := by
  have h₁ : (400 * e + 100 * c + 4 * q + k) / 4 = 100 * e + 25 * c + q := by omega
  have h₂ : (400 * e + 100 * c + 4 * q + k) / 100 = 4 * e + c := by omega
  have h₃ : (400 * e + 100 * c + 4 * q + k) / 400 = e := by omega
  rw [daysBeforeYear, Nat.add_sub_cancel, h₁, h₂, h₃]
  omega

theorem daysBeforeYear_yearOfDay_le (n : Nat) : daysBeforeYear (yearOfDay n) ≤ n := by
  have hq : (n % 146097 - min (n % 146097 / 36524) 3 * 36524) / 1461 ≤ 24 := by omega
  dsimp only [yearOfDay]
  rw [daysBeforeYear_parts _ _ _ _ (Nat.min_le_right _ _) hq (Nat.min_le_right _ _)]
  omega

theorem lt_daysBeforeYear_yearOfDay (n : Nat) : n < daysBeforeYear (yearOfDay n + 1) := by
  dsimp only [yearOfDay]
  generalize he : n / 146097 = e
  generalize hr : n % 146097 = r
  generalize hc : min (r / 36524) 3 = c
  generalize hs : r - c * 36524 = s
  generalize hq : s / 1461 = q
  generalize ht : s % 1461 = t
  generalize hk : min (t / 365) 3 = k
  by_cases hk3 : k < 3
  · have h := daysBeforeYear_parts e c q (k + 1) (by omega) (by omega) (by omega)
    rw [Nat.add_assoc _ k 1, h]
    omega
  by_cases hq24 : q < 24
  · have h := daysBeforeYear_parts e c (q + 1) 0 (by omega) (by omega) (by omega)
    rw [show 400 * e + 100 * c + 4 * q + k + 1 + 1 = 400 * e + 100 * c + 4 * (q + 1) + 0 + 1 by omega,
      h]
    omega
  by_cases hc3 : c < 3
  · have h := daysBeforeYear_parts e (c + 1) 0 0 (by omega) (by omega) (by omega)
    rw [show 400 * e + 100 * c + 4 * q + k + 1 + 1 = 400 * e + 100 * (c + 1) + 4 * 0 + 0 + 1 by omega,
      h]
    omega
  · have h := daysBeforeYear_parts (e + 1) 0 0 0 (by omega) (by omega) (by omega)
    rw [show 400 * e + 100 * c + 4 * q + k + 1 + 1 = 400 * (e + 1) + 100 * 0 + 4 * 0 + 0 + 1 by omega,
      h]
    omega

theorem offset_lt_sum_monthLengths (n : Nat) :
    n - daysBeforeYear (yearOfDay n) < (monthLengths (yearOfDay n)).sum := by
  have hl := daysBeforeYear_yearOfDay_le n
  have hu := lt_daysBeforeYear_yearOfDay n
  obtain ⟨y, hy⟩ : ∃ y, yearOfDay n = y + 1 := ⟨_, rfl⟩
  rw [hy] at hl hu ⊢
  rw [daysBeforeYear_succ] at hu
  omega

/-- The stretch that holds an offset, when the stretches together are long enough. -/
theorem locate_sum (ls : List Nat) (n : Nat) (hn : n < ls.sum) :
    (locate ls n).1 < ls.length ∧ (locate ls n).2 < ls.getD (locate ls n).1 0 ∧
      (ls.take (locate ls n).1).sum + (locate ls n).2 = n := by
  induction ls generalizing n with
  | nil => simp at hn
  | cons l ls ih =>
    by_cases h : n < l
    · simp [locate, h]
    · have hn' : n - l < ls.sum := by
        rw [List.sum_cons] at hn
        omega
      obtain ⟨h₁, h₂, h₃⟩ := ih (n - l) hn'
      simp only [locate, if_neg h, List.length_cons, List.getD_cons_succ, List.take_succ_cons,
        List.sum_cons]
      exact ⟨by omega, h₂, by omega⟩

theorem dayNumber_ofDayNumber (n : Nat) : (ofDayNumber n).dayNumber = n := by
  have hl := daysBeforeYear_yearOfDay_le n
  obtain ⟨_, _, hsum⟩ := locate_sum _ _ (offset_lt_sum_monthLengths n)
  simp only [ofDayNumber, dayNumber, Nat.add_sub_cancel]
  omega

theorem valid_ofDayNumber {n : Nat} (hn : n < dayCount) : (ofDayNumber n).Valid := by
  have hy : yearOfDay n ≤ 9999 := by
    by_contra h
    have hmono := daysBeforeYear_mono (show 10000 ≤ yearOfDay n by omega)
    have hl := daysBeforeYear_yearOfDay_le n
    have hn' : n < daysBeforeYear 10000 := hn
    omega
  obtain ⟨hm, hd, _⟩ := locate_sum _ _ (offset_lt_sum_monthLengths n)
  have hlen : (monthLengths (yearOfDay n)).length = 12 := rfl
  refine ⟨Nat.le_add_left _ _, hy, Nat.le_add_left _ _, ?_, Nat.le_add_left _ _, ?_⟩
  · simp only [ofDayNumber]
    omega
  · simp only [ofDayNumber, Nat.add_sub_cancel]
    exact hd

theorem length_month_le (year month : Nat) : (monthLengths year).getD month 0 ≤ 31 := by
  unfold monthLengths
  rcases month with _ | _ | _ | _ | _ | _ | _ | _ | _ | _ | _ | _ | month <;> simp
  split <;> decide

theorem read_written {d : Date} (hd : d.Valid) (rest : List Char) :
    read (d.written ++ rest) = some (d, rest) := by
  have hv := hd
  obtain ⟨_, hy, _, hm, _, hday⟩ := hd
  have hday' : d.day < 10 ^ 2 := by
    have := length_month_le d.year (d.month - 1)
    omega
  have hw : d.written ++ rest = paddedDigits 4 d.year ++
      ('-' :: (paddedDigits 2 d.month ++ '-' :: (paddedDigits 2 d.day ++ rest))) := by
    simp [written]
  rw [hw, read, fixedDigits_paddedDigits_of_lt (by omega)]
  simp only [Option.bind_eq_bind, Option.bind_some, expect, decide_true, if_true,
    fixedDigits_paddedDigits_of_lt (show d.month < 10 ^ 2 by omega),
    fixedDigits_paddedDigits_of_lt hday']
  exact if_pos hv

end KeyedBreaker.Date
