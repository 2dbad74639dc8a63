import KeyedBreaker.Proofs.Binary64.Order
import KeyedBreaker.Proofs.Record.Ratio
import Mathlib.Tactic

namespace KeyedBreaker

namespace Rounding

variable {n d n' d' q : Nat}

theorem nearestEven_of_tie (hd : 0 < d) (h : 2 * n = (2 * q + 1) * d) :
    nearestEven n d = q + q % 2 := by
  have hdiv : n / d = q := by
    apply Nat.div_eq_of_lt_le <;> nlinarith
  have hmod := Nat.div_add_mod n d
  rw [hdiv] at hmod
  have htie : 2 * (n % d) = d := by nlinarith
  rw [nearestEven, if_neg (by omega), if_neg (by omega), hdiv]

theorem nearestEven_mono (hd : 0 < d) (hd' : 0 < d') (h : n * d' ≤ n' * d) :
    nearestEven n d ≤ nearestEven n' d' := by
  have hbelow := (nearestEven_error (n := n) hd).1
  have habove := (nearestEven_error (n := n') hd').2
  by_contra hlt
  obtain ⟨a, ha⟩ : ∃ a, nearestEven n d = a + 1 := ⟨nearestEven n d - 1, by omega⟩
  have hle : nearestEven n' d' ≤ a := by omega
  rw [ha] at hbelow
  -- the two quotients lie on either side of the middle between `a` and `a + 1`, so both are the middle
  have hlow : (2 * a + 1) * d ≤ 2 * n := by nlinarith
  have hhigh : 2 * n' ≤ (2 * a + 1) * d' := by
    have := Nat.mul_le_mul_right d' hle
    nlinarith
  have hn : 2 * n * d' = (2 * a + 1) * d * d' := by
    apply Nat.le_antisymm
    · calc 2 * n * d' = 2 * (n * d') := by ring
        _ ≤ 2 * (n' * d) := Nat.mul_le_mul_left 2 h
        _ = 2 * n' * d := by ring
        _ ≤ (2 * a + 1) * d' * d := Nat.mul_le_mul_right d hhigh
        _ = (2 * a + 1) * d * d' := by ring
    · exact Nat.mul_le_mul_right d' hlow
  have htie := nearestEven_of_tie hd (Nat.eq_of_mul_eq_mul_right hd' hn)
  have hn' : 2 * n' * d = (2 * a + 1) * d' * d := by
    apply Nat.le_antisymm
    · exact Nat.mul_le_mul_right d hhigh
    · calc (2 * a + 1) * d' * d = 2 * n * d' := by rw [hn]; ring
        _ = 2 * (n * d') := by ring
        _ ≤ 2 * (n' * d) := Nat.mul_le_mul_left 2 h
        _ = 2 * n' * d := by ring
  have htie' := nearestEven_of_tie hd' (Nat.eq_of_mul_eq_mul_right hd hn')
  omega

theorem nearestEven_le (hd : 0 < d) (h : n ≤ q * d) : nearestEven n d ≤ q := by
  have hle := nearestEven_mono hd hd (Nat.mul_le_mul_right d h)
  rwa [nearestEven_mul_right hd] at hle

end Rounding

namespace Binary64

open Rounding

variable {n d n' d' : Nat}

theorem nearestEven_le_two_pow : nearestEven n (d * 2 ^ ((n / d).log2 - 52)) ≤ 2 ^ 53 := by
  have hq : n / (d * 2 ^ ((n / d).log2 - 52)) < 2 ^ 53 := by
    rw [← Nat.div_div_eq_div_mul, Nat.div_lt_iff_lt_mul (Nat.two_pow_pos _), ← Nat.pow_add]
    exact Nat.lt_of_lt_of_le (lt_two_pow_log2 _) (Nat.pow_le_pow_right (by decide) (by omega))
  exact Nat.le_trans nearestEven_le_div_add_one hq

theorem two_pow_le_roundUnits (h : 52 < (n / d).log2) : 2 ^ (n / d).log2 ≤ roundUnits n d := by
  have hq : n / d ≠ 0 := by
    intro h0
    rw [h0] at h
    simp at h
  have hdiv : 2 ^ 52 ≤ n / (d * 2 ^ ((n / d).log2 - 52)) := by
    rw [← Nat.div_div_eq_div_mul, Nat.le_div_iff_mul_le (Nat.two_pow_pos _), ← Nat.pow_add,
      Nat.add_sub_cancel' h.le]
    exact Nat.log2_self_le hq
  calc 2 ^ (n / d).log2 = 2 ^ 52 * 2 ^ ((n / d).log2 - 52) := by
        rw [← Nat.pow_add, Nat.add_sub_cancel' h.le]
    _ ≤ roundUnits n d := Nat.mul_le_mul_right _ (hdiv.trans div_le_nearestEven)

theorem roundUnits_mono (hd : 0 < d) (hd' : 0 < d') (h : n * d' ≤ n' * d) :
    roundUnits n d ≤ roundUnits n' d' := by
  have hdiv : n / d ≤ n' / d' := by
    rw [Nat.le_div_iff_mul_le hd']
    refine Nat.le_of_mul_le_mul_right ?_ hd
    calc n / d * d' * d = n / d * d * d' := by ring
      _ ≤ n * d' := Nat.mul_le_mul_right d' (Nat.div_mul_le_self n d)
      _ ≤ n' * d := h
  have hlog : (n / d).log2 ≤ (n' / d').log2 := by
    rw [Nat.log2_eq_log_two, Nat.log2_eq_log_two]
    exact Nat.log_mono_right hdiv
  rcases Nat.eq_or_lt_of_le (Nat.sub_le_sub_right hlog 52) with he | hlt
  · -- both are rounded to the same number of places
    rw [roundUnits, roundUnits, ← he]
    refine Nat.mul_le_mul_right _ (nearestEven_mono ?_ ?_ ?_)
    · exact Nat.mul_pos hd (Nat.two_pow_pos _)
    · exact Nat.mul_pos hd' (Nat.two_pow_pos _)
    · calc n * (d' * 2 ^ ((n / d).log2 - 52)) = n * d' * 2 ^ ((n / d).log2 - 52) := by ring
        _ ≤ n' * d * 2 ^ ((n / d).log2 - 52) := Nat.mul_le_mul_right _ h
        _ = n' * (d * 2 ^ ((n / d).log2 - 52)) := by ring
  · -- a power of two lies between the two
    calc roundUnits n d ≤ 2 ^ 53 * 2 ^ ((n / d).log2 - 52) :=
          Nat.mul_le_mul_right _ nearestEven_le_two_pow
      _ ≤ 2 ^ (n' / d').log2 := by
          rw [← Nat.pow_add]
          exact Nat.pow_le_pow_right (by decide) (by omega)
      _ ≤ roundUnits n' d' := two_pow_le_roundUnits (by omega)

theorem roundUnits_mul_self {u : Nat} (hn : 0 < n) : roundUnits (n * u) n = roundUnits (1 * u) 1 :=
  Nat.le_antisymm (roundUnits_mono hn Nat.one_pos (Nat.le_of_eq (by ring)))
    (roundUnits_mono Nat.one_pos hn (Nat.le_of_eq (by ring)))

theorem ofUnits_mul_self {s : Bool} {u : Nat} (hn : 0 < n) : ofUnits s (n * u) n = ofUnits s (1 * u) 1 := by
  unfold ofUnits
  simp only [roundUnits_mul_self hn]

theorem roundUnits_le_of_fixed {u : Nat} (hd : 0 < d) (h : n ≤ u * d) (hu : roundUnits u 1 = u) :
    roundUnits n d ≤ u := by
  have hle := roundUnits_mono hd Nat.one_pos (show n * 1 ≤ u * d by omega)
  rwa [hu] at hle

end Binary64

namespace Record

theorem quotient_self {n : Nat} (hn : 0 < n) : quotient n n = .ok (Binary64.ofInt 1) := by
  have hunits : Binary64.ofUnits false (n * 2 ^ 1074) n = Binary64.ofInt 1 :=
    (Binary64.ofUnits_mul_self hn).trans (by decide +kernel)
  obtain ⟨u, hu, hone⟩ : ∃ u h, Binary64.ofInt 1 = .finite false u h :=
    ⟨Binary64.roundUnits (1 * 2 ^ 1074) 1, by decide +kernel, by decide +kernel⟩
  rw [quotient, bne_self_eq_false, Int.natAbs_natCast, hunits, hone, inRange]
  exact fun _ h => by cases h

theorem quotient_antitone {n d d' : Int} (hn : 0 ≤ n) (hd : 0 < d) (h : n ≤ d) (hd' : d ≤ d') :
    ∃ x y, quotient n d = .ok x ∧ quotient n d' = .ok y ∧ y ≤ x := by
  have hsign : ∀ {m : Int}, 0 < m → ((decide (n < 0)) != decide (m < 0)) = false := by
    intro m hm
    rw [decide_eq_false (by omega), decide_eq_false (by omega)]
    rfl
  have hlt := Binary64.roundUnits_lt_threshold (show n.natAbs ≤ d.natAbs by omega)
  have hlt' := Binary64.roundUnits_lt_threshold (show n.natAbs ≤ d'.natAbs by omega)
  have hle : Binary64.roundUnits (n.natAbs * 2 ^ 1074) d'.natAbs ≤
      Binary64.roundUnits (n.natAbs * 2 ^ 1074) d.natAbs := by
    refine Binary64.roundUnits_mono (by omega) (by omega) (Nat.mul_le_mul_left _ (by omega))
  rw [quotient, quotient, hsign hd, hsign (by omega), Binary64.ofUnits, Binary64.ofUnits, dif_pos hlt,
    dif_pos hlt']
  refine ⟨_, _, rfl, rfl, ?_⟩
  exact decide_eq_true (Int.ofNat_le.2 hle)

end Record

end KeyedBreaker
