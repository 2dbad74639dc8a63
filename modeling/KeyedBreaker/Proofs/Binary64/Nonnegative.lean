import KeyedBreaker.Proofs.Binary64.Order
import KeyedBreaker.Proofs.Calendar.Seconds

namespace KeyedBreaker.Binary64

open Rounding

variable {x y z : Binary64} {s t : Bool} {u v n d n' d' : Nat}

theorem rank_zero : zero.rank = some 0 := rfl

/-- A number that is not below zero is infinite, or finite where only zero has the negative sign. -/
theorem nonneg_cases (h : zero ≤ x) :
    x = .infinite false ∨ ∃ s u hu, x = .finite s u hu ∧ (s = true → u = 0) := by
  cases x with
  | nan => cases h
  | infinite s =>
    cases s with
    | true => cases h
    | false => exact .inl rfl
  | finite s u hu =>
    refine .inr ⟨s, u, hu, rfl, fun hs => ?_⟩
    have hle : (0 : Int) ≤ signed s u := of_decide_eq_true h
    rw [hs, signed, if_pos rfl] at hle
    omega

theorem rank_finite (hs : s = true → u = 0) (hu : Representable u) :
    (Binary64.finite s u hu).rank = some (((u : Int) : WithTop Int) : WithBot (WithTop Int)) := by
  cases s with
  | false => rfl
  | true =>
    obtain rfl := hs rfl
    rfl

def rounded (n d : Nat) : WithBot (WithTop Int) :=
  if roundUnits n d < threshold then ((roundUnits n d : Int) : WithTop Int) else ⊤

theorem rounded_mono (hd : 0 < d) (hd' : 0 < d') (h : n * d' ≤ n' * d) : rounded n d ≤ rounded n' d' := by
  have hle := roundUnits_mono hd hd' h
  rw [rounded, rounded]
  split
  · split
    · exact WithBot.coe_le_coe.2 (WithTop.coe_le_coe.2 (Int.ofNat_le.2 hle))
    · exact le_top
  · rw [if_neg (by omega)]

theorem rounded_nonneg (n d : Nat) : 0 ≤ rounded n d := by
  rw [rounded]
  split
  · exact WithBot.coe_le_coe.2 (WithTop.coe_le_coe.2 (Int.natCast_nonneg _))
  · exact le_top

theorem rank_ofUnits (hd : 0 < d) (hs : s = true → n = 0) : (ofUnits s n d).rank = some (rounded n d) := by
  have hzero : s = true → roundUnits n d = 0 := fun h => hs h ▸ roundUnits_zero hd
  rw [ofUnits, rounded]
  split
  · exact rank_finite hzero _
  · cases s with
    | false => rfl
    | true =>
      next h =>
      rw [hzero rfl] at h
      exact absurd (by decide +kernel) h

theorem rank_mul (hs : s = true → u = 0) (ht : t = true → v = 0) (hu : Representable u)
    (hv : Representable v) :
    (Binary64.finite s u hu * .finite t v hv).rank = some (rounded (u * v) unitsOfOne) := by
  rw [finite_mul]
  refine rank_ofUnits unitsOfOne_pos fun hsign => ?_
  cases s with
  | true => rw [hs rfl, Nat.zero_mul]
  | false => rw [ht (by simpa using hsign), Nat.mul_zero]

theorem rank_add (hs : s = true → u = 0) (ht : t = true → v = 0) (hu : Representable u)
    (hv : Representable v) :
    (Binary64.finite s u hu + .finite t v hv).rank = some (rounded (u + v) 1) := by
  have hsum : signed s u + signed t v = ((u + v : Nat) : Int) := by
    cases s <;> cases t <;> simp_all [signed]
  have hadd : Binary64.finite s u hu + .finite t v hv =
      if u + v = 0 then signedZero (s && t) else ofUnits false (u + v) 1 := by
    change (if signed s u + signed t v = 0 then signedZero (s && t)
      else ofUnits (signed s u + signed t v < 0) (signed s u + signed t v).natAbs 1) = _
    rw [hsum, decide_eq_false (by omega), Int.natAbs_natCast]
    simp only [Int.natCast_eq_zero]
  rw [hadd]
  split
  · next h =>
    rw [h, signedZero, rank_finite (fun _ => rfl), rounded, roundUnits_zero Nat.one_pos,
      if_pos (by decide +kernel)]
  · exact rank_ofUnits Nat.one_pos (fun h => by cases h)

theorem le_infinite (h : zero ≤ x) : x ≤ .infinite false := by
  obtain ⟨_, b, -, hb, -⟩ := exists_rank_of_le h
  exact (le_iff_of_rank hb rfl).2 le_top

theorem add_nonneg (hx : zero ≤ x) (hy : zero ≤ y) : zero ≤ x + y := by
  obtain rfl | ⟨s, u, hu, rfl, hs⟩ := nonneg_cases hx <;>
    obtain rfl | ⟨t, v, hv, rfl, ht⟩ := nonneg_cases hy
  · rfl
  · rfl
  · rfl
  · exact (le_iff_of_rank rank_zero (rank_add hs ht hu hv)).2 (rounded_nonneg _ _)

theorem mul_nonneg (hx : zero ≤ x) (hy : zero ≤ y) : x * y = .nan ∨ zero ≤ x * y := by
  obtain rfl | ⟨s, u, hu, rfl, hs⟩ := nonneg_cases hx <;>
    obtain rfl | ⟨t, v, hv, rfl, ht⟩ := nonneg_cases hy
  · exact .inr rfl
  · by_cases hv0 : v = 0
    · exact .inl (if_pos hv0)
    · have ht : t = false := by simpa [hv0] using ht
      exact .inr (by rw [show Binary64.infinite false * .finite t v hv = .infinite (false != t) from
        if_neg hv0, ht]; rfl)
  · by_cases hu0 : u = 0
    · exact .inl (if_pos hu0)
    · have hs : s = false := by simpa [hu0] using hs
      exact .inr (by rw [show Binary64.finite s u hu * .infinite false = .infinite (s != false) from
        if_neg hu0, hs]; rfl)
  · exact .inr ((le_iff_of_rank rank_zero (rank_mul hs ht hu hv)).2 (rounded_nonneg _ _))

theorem add_le_add_right (hx : zero ≤ x) (hz : zero ≤ z) (h : x ≤ y) : x + z ≤ y + z := by
  obtain rfl | ⟨t, v, hv, rfl, ht⟩ := nonneg_cases (le_trans hx h)
  · have htop : Binary64.infinite false + z = .infinite false := by
      obtain rfl | ⟨r, w, hw, rfl, -⟩ := nonneg_cases hz <;> rfl
    rw [htop]
    exact le_infinite (add_nonneg hx hz)
  obtain rfl | ⟨r, w, hw, rfl, hr⟩ := nonneg_cases hz
  · exact le_infinite (add_nonneg hx hz)
  obtain rfl | ⟨s, u, hu, rfl, hs⟩ := nonneg_cases hx
  · cases t <;> cases h
  have hrank := (le_iff_of_rank (rank_finite hs hu) (rank_finite ht hv)).1 h
  have huv : u ≤ v := Int.ofNat_le.1 (WithTop.coe_le_coe.1 (WithBot.coe_le_coe.1 hrank))
  rw [le_iff_of_rank (rank_add hs hr hu hw) (rank_add ht hr hv hw)]
  exact rounded_mono Nat.one_pos Nat.one_pos (by omega)

theorem ofInt_two_pow {k : Nat} (h : k < 1024) : ∃ hr, ofInt (2 ^ k) = .finite false (2 ^ k * unitsOfOne) hr := by
  have hpow : 2 ^ k * unitsOfOne = 2 ^ (k + 1074) := by rw [unitsOfOne_eq, Nat.pow_add]
  have hfixed : roundUnits (2 ^ k * unitsOfOne) 1 = 2 ^ k * unitsOfOne := by
    rw [hpow]
    have hround := roundUnits_mul_two_pow (show 1 < 2 ^ 53 by decide) (k + 1074)
    rwa [Nat.one_mul] at hround
  have hlt : roundUnits (2 ^ k * unitsOfOne) 1 < threshold := by
    have hexp : ∀ n, k + 1074 < n → 2 ^ (k + 1074) < 2 ^ n := fun n => Nat.pow_lt_pow_right (by decide)
    rw [hfixed, hpow]
    delta threshold
    exact hexp _ (by omega)
  have hcast : ((2 : Int) ^ k) = ((2 ^ k : Nat) : Int) := by push_cast; rfl
  refine ⟨⟨hfixed ▸ hlt, hfixed ▸ roundUnits_dvd _ _⟩, ?_⟩
  rw [ofInt, hcast, ofRatio_natCast hlt]
  simp only [hfixed]

theorem infinite_mul (hv : Representable v) (h : v ≠ 0) :
    Binary64.infinite false * .finite false v hv = .infinite false :=
  if_neg h

theorem two_pow_mul_unitsOfOne_ne_zero (k : Nat) : 2 ^ k * unitsOfOne ≠ 0 :=
  (Nat.mul_pos (Nat.two_pow_pos k) unitsOfOne_pos).ne'

theorem zero_le_mul_two_pow {k : Nat} (hx : zero ≤ x) (hk : k < 1024) : zero ≤ x * ofInt (2 ^ k) := by
  obtain ⟨hv, heq⟩ := ofInt_two_pow hk
  rw [heq]
  obtain rfl | ⟨s, u, hu, rfl, hs⟩ := nonneg_cases hx
  · rw [infinite_mul hv (two_pow_mul_unitsOfOne_ne_zero k)]
    rfl
  · exact (le_iff_of_rank rank_zero (rank_mul hs (fun h => by cases h) hu hv)).2 (rounded_nonneg _ _)

theorem mul_two_pow_le {k m : Nat} (hx : zero ≤ x) (hm : m < 1024) (h : k ≤ m) :
    x * ofInt (2 ^ k) ≤ x * ofInt (2 ^ m) := by
  obtain ⟨hv, hk⟩ := ofInt_two_pow (h.trans_lt hm)
  obtain ⟨hw, hm⟩ := ofInt_two_pow hm
  rw [hk, hm]
  obtain rfl | ⟨s, u, hu, rfl, hs⟩ := nonneg_cases hx
  · rw [infinite_mul hv (two_pow_mul_unitsOfOne_ne_zero k), infinite_mul hw (two_pow_mul_unitsOfOne_ne_zero m)]
    rfl
  · have hpow : 2 ^ k * unitsOfOne ≤ 2 ^ m * unitsOfOne :=
      Nat.mul_le_mul_right _ (Nat.pow_le_pow_right (by decide) h)
    rw [le_iff_of_rank (rank_mul hs (fun h => by cases h) hu hv) (rank_mul hs (fun h => by cases h) hu hw)]
    exact rounded_mono unitsOfOne_pos unitsOfOne_pos
      (Nat.mul_le_mul_right _ (Nat.mul_le_mul_left _ hpow))

theorem finite_sub (hu : Representable u) (hv : Representable v) :
    Binary64.finite s u hu - .finite t v hv =
      if signed s u - signed t v = 0 then signedZero (s && !t)
      else ofUnits (signed s u - signed t v < 0) (signed s u - signed t v).natAbs 1 := by
  have hneg : signed (!t) v = -signed t v := by cases t <;> simp [signed]
  change (if signed s u + signed (!t) v = 0 then signedZero (s && !t)
    else ofUnits (signed s u + signed (!t) v < 0) (signed s u + signed (!t) v).natAbs 1) = _
  rw [hneg, ← Int.sub_eq_add_neg]

theorem zero_le_sub (hx : x.isFinite = true) (hy : y.isFinite = true) (h : y ≤ x) : zero ≤ x - y := by
  cases x with
  | nan | infinite => cases hx
  | finite s u hu =>
    cases y with
    | nan | infinite => cases hy
    | finite t v hv =>
      have hle : signed t v ≤ signed s u := of_decide_eq_true h
      rw [finite_sub]
      split
      · cases s && !t <;> decide +kernel
      · rw [decide_eq_false (by omega)]
        have hzero : zero = ofUnits false 0 1 := by decide +kernel
        rw [hzero]
        exact ofUnits_le_ofUnits Nat.one_pos Nat.one_pos (by omega)

theorem sub_lt_zero (hx : x.isFinite = true) (hy : y.isFinite = true) (h : x < y) : x - y < zero := by
  cases x with
  | nan | infinite => cases hx
  | finite s u hu =>
    cases y with
    | nan | infinite => cases hy
    | finite t v hv =>
      have hlt : signed s u < signed t v := of_decide_eq_true h
      rw [finite_sub, if_neg (by omega), decide_eq_true (by omega)]
      exact ofUnits_lt_zero Nat.one_pos (by omega)

theorem max_zero_sub (hx : x.isFinite = true) (hy : y.isFinite = true) :
    zero ≤ (x - y).max zero ∧ (x < y → (x - y).max zero = zero) ∧
      (y ≤ x → (x - y).max zero = x - y) := by
  have hbelow : x < y → (x - y).max zero = zero := fun h => if_pos (sub_lt_zero hx hy h)
  have habove : y ≤ x → (x - y).max zero = x - y := fun h => if_neg (not_lt_of_le (zero_le_sub hx hy h))
  refine ⟨?_, hbelow, habove⟩
  by_cases h : x < y
  · rw [hbelow h]
    exact zero_le_zero
  · have hle : y ≤ x := by
      refine le_of_not_lt ?_ ?_ h
      · cases y <;> first | rfl | cases hy
      · cases x <;> first | rfl | cases hx
    rw [habove hle]
    exact zero_le_sub hx hy hle

end KeyedBreaker.Binary64
