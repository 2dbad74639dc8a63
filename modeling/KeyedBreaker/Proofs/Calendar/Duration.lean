import KeyedBreaker.Proofs.Binary64.Monotone
import KeyedBreaker.Proofs.Calendar.Date
import KeyedBreaker.Proofs.Calendar.Order

namespace KeyedBreaker

open Binary64 Rounding

namespace Binary64

variable {m k n : Nat}

theorem roundUnits_mul_two_pow (h : m < 2 ^ 53) (k : Nat) : roundUnits (m * 2 ^ k) 1 = m * 2 ^ k := by
  have hplaces : (m * 2 ^ k).log2 - 52 ≤ k := by
    by_cases h0 : m * 2 ^ k = 0
    · rw [h0, Nat.log2_zero]
      exact Nat.zero_le _
    · have hlog : (m * 2 ^ k).log2 < 53 + k := by
        rw [Nat.log2_lt h0, Nat.pow_add]
        exact Nat.mul_lt_mul_of_pos_right h (Nat.two_pow_pos k)
      omega
  obtain ⟨q, hq⟩ : 2 ^ ((m * 2 ^ k).log2 - 52) ∣ m * 2 ^ k :=
    Nat.dvd_trans (Nat.pow_dvd_pow 2 hplaces) (Nat.dvd_mul_left (2 ^ k) m)
  rw [roundUnits, Nat.div_one, Nat.one_mul]
  generalize (m * 2 ^ k).log2 - 52 = places at hq
  rw [hq, Nat.mul_comm (2 ^ places), nearestEven_mul_right (Nat.two_pow_pos places)]

theorem mul_two_pow_lt (h : m < 2 ^ 53) (hn : 53 + k ≤ n) : m * 2 ^ k < 2 ^ n :=
  calc m * 2 ^ k < 2 ^ 53 * 2 ^ k := Nat.mul_lt_mul_of_pos_right h (Nat.two_pow_pos k)
    _ = 2 ^ (53 + k) := (Nat.pow_add 2 53 k).symm
    _ ≤ 2 ^ n := Nat.pow_le_pow_right (by decide) hn

/-- The units in one. Kept folded, so that nothing computes with a number of this size. -/
@[irreducible] def unitsOfOne : Nat := 2 ^ 1074

theorem unitsOfOne_eq : unitsOfOne = 2 ^ 1074 := by unfold unitsOfOne; rfl

theorem unitsOfOne_pos : 0 < unitsOfOne := by
  rw [unitsOfOne_eq]
  apply Nat.two_pow_pos

theorem exists_unitsOfOne_eq (h : m ≤ 1074) : ∃ k, unitsOfOne = 2 ^ m * 2 ^ k := by
  refine ⟨1074 - m, ?_⟩
  rw [unitsOfOne_eq, ← Nat.pow_add, Nat.add_sub_cancel' h]

theorem unitsOfOne_dvd (h : 1074 ≤ m) : unitsOfOne ∣ 2 ^ m := by
  rwa [unitsOfOne_eq, Nat.pow_dvd_pow_iff_le_right (by decide)]

theorem roundUnits_mul_unitsOfOne (h : m < 2 ^ 53) :
    roundUnits (m * unitsOfOne) 1 = m * unitsOfOne :=
  unitsOfOne_eq ▸ roundUnits_mul_two_pow h 1074

theorem roundUnits_unitsOfOne : roundUnits unitsOfOne 1 = unitsOfOne := by
  have h := roundUnits_mul_unitsOfOne (m := 1) (by decide)
  rwa [Nat.one_mul] at h

theorem roundUnits_zero {d : Nat} (hd : 0 < d) : roundUnits 0 d = 0 :=
  Nat.le_zero.1 (roundUnits_le_of_fixed hd (Nat.zero_le _) rfl)

theorem mul_unitsOfOne_lt_threshold (h : m < 2 ^ 53) : m * unitsOfOne < threshold := by
  rw [unitsOfOne_eq]
  delta threshold
  exact mul_two_pow_lt h (by decide)

theorem unitsOfOne_lt_threshold : unitsOfOne < threshold := by
  have h := mul_unitsOfOne_lt_threshold (m := 1) (by decide)
  rwa [Nat.one_mul] at h

theorem ofRatio_natCast {d : Nat} (h : roundUnits (m * unitsOfOne) d < threshold) :
    Binary64.ofRatio m d =
      .finite false (roundUnits (m * unitsOfOne) d) ⟨h, roundUnits_dvd _ _⟩ := by
  have hsign : decide ((m : Int) < 0) = false := decide_eq_false (by omega)
  rw [ofRatio, hsign, Int.natAbs_natCast, ← unitsOfOne_eq]
  exact dif_pos h

theorem ofInt_natCast (h : m < 2 ^ 53) :
    ∃ hr, Binary64.ofInt m = .finite false (m * unitsOfOne) hr := by
  have hlt := mul_unitsOfOne_lt_threshold h
  have hfixed := roundUnits_mul_unitsOfOne h
  have hdvd := roundUnits_dvd (m * unitsOfOne) 1
  rw [hfixed] at hdvd
  refine ⟨⟨hlt, hdvd⟩, (ofRatio_natCast (hfixed.symm ▸ hlt)).trans ?_⟩
  simp only [hfixed]

theorem finite_mul {s t : Bool} {u v : Nat} (hu : Representable u) (hv : Representable v) :
    Binary64.finite s u hu * .finite t v hv = ofUnits (s != t) (u * v) unitsOfOne := by
  rw [unitsOfOne_eq]
  exact Binary64.mul.eq_1 ..

end Binary64

namespace Duration

variable {units : Nat}

def restMicros (units : Nat) : Nat :=
  nearestEven (roundUnits (roundUnits (units % unitsOfOne) 1 * (10 ^ 6 * unitsOfOne)) unitsOfOne)
    unitsOfOne

theorem roundUnits_fraction_le (units : Nat) : roundUnits (units % unitsOfOne) 1 ≤ unitsOfOne :=
  roundUnits_le_of_fixed Nat.one_pos (by have := Nat.mod_lt units unitsOfOne_pos; omega)
    roundUnits_unitsOfOne

theorem roundUnits_product_le {f : Nat} (h : f ≤ unitsOfOne) :
    roundUnits (f * (10 ^ 6 * unitsOfOne)) unitsOfOne ≤ 10 ^ 6 * unitsOfOne := by
  refine roundUnits_le_of_fixed unitsOfOne_pos ?_ (roundUnits_mul_unitsOfOne (by decide))
  rw [Nat.mul_comm f]
  exact Nat.mul_le_mul_left _ h

theorem restMicros_le (units : Nat) : restMicros units ≤ 10 ^ 6 :=
  nearestEven_le unitsOfOne_pos (roundUnits_product_le (roundUnits_fraction_le units))

theorem restMicros_zero : restMicros 0 = 0 := by
  rw [restMicros, Nat.zero_mod, roundUnits_zero Nat.one_pos, Nat.zero_mul,
    roundUnits_zero unitsOfOne_pos]
  exact Nat.le_zero.1 (nearestEven_le unitsOfOne_pos (Nat.zero_le _))

def microUnits : Nat := roundUnits unitsOfOne (10 ^ 6)

theorem restMicros_micro : restMicros microUnits = 1 := by
  rw [restMicros, microUnits, unitsOfOne_eq]
  decide +kernel

theorem microUnits_pos : 0 < microUnits := by
  refine Nat.pos_of_ne_zero fun h => ?_
  have hone := restMicros_micro
  rw [h, restMicros_zero] at hone
  cases hone

theorem microUnits_le : microUnits ≤ unitsOfOne :=
  roundUnits_le_of_fixed (by decide) (Nat.le_mul_of_pos_right _ (by decide)) roundUnits_unitsOfOne

theorem restMicros_pos (h : microUnits ≤ units) (hlt : units < unitsOfOne) : 0 < restMicros units := by
  have hmod : microUnits % unitsOfOne ≤ units % unitsOfOne := by
    rw [Nat.mod_eq_of_lt hlt, Nat.mod_eq_of_lt (h.trans_lt hlt)]
    exact h
  have hfraction : roundUnits (microUnits % unitsOfOne) 1 ≤ roundUnits (units % unitsOfOne) 1 :=
    roundUnits_mono Nat.one_pos Nat.one_pos (Nat.mul_le_mul_right 1 hmod)
  have hproduct := roundUnits_mono unitsOfOne_pos unitsOfOne_pos
    (Nat.mul_le_mul_right unitsOfOne (Nat.mul_le_mul_right (10 ^ 6 * unitsOfOne) hfraction))
  have hrest : restMicros microUnits ≤ restMicros units :=
    nearestEven_mono unitsOfOne_pos unitsOfOne_pos (Nat.mul_le_mul_right unitsOfOne hproduct)
  rw [restMicros_micro] at hrest
  exact hrest

def allMicros (units : Nat) : Nat := units / unitsOfOne * 10 ^ 6 + restMicros units

theorem signed_add (s : Bool) (a b k : Nat) :
    signed s a * k + signed s b = signed s (a * k + b) := by
  cases s
  · exact (Int.natCast_add (a * k) b).symm
  · change -(a : Int) * k + -b = -((a * k + b : Nat) : Int)
    push_cast
    ring

theorem ofSeconds_finite {s : Bool} (h : Representable units) :
    ofSeconds (.finite s units h) = ofMicros (signed s (allMicros units)) := by
  have hf := roundUnits_fraction_le units
  have hp := roundUnits_product_le hf
  have hmillionLt : 10 ^ 6 * unitsOfOne < threshold := mul_unitsOfOne_lt_threshold (by decide)
  have hrepr : Representable (roundUnits (units % unitsOfOne) 1) :=
    ⟨hf.trans_lt unitsOfOne_lt_threshold, roundUnits_dvd _ _⟩
  have hrepr' : Representable
      (roundUnits (roundUnits (units % unitsOfOne) 1 * (10 ^ 6 * unitsOfOne)) unitsOfOne) :=
    ⟨hp.trans_lt hmillionLt, roundUnits_dvd _ _⟩
  have hcast : ((10 ^ 6 : Nat) : Int) = 1000000 := by norm_num
  obtain ⟨hm, hmillion⟩ := ofInt_natCast (m := 10 ^ 6) (by decide)
  rw [hcast] at hmillion
  have hfraction : Binary64.fraction (.finite s units h) = .finite s _ hrepr := by
    rw [Binary64.fraction, ← unitsOfOne_eq]
    exact dif_pos (hf.trans_lt unitsOfOne_lt_threshold)
  have hproduct : Binary64.fraction (.finite s units h) * Binary64.ofInt 1000000 =
      .finite (s != false) _ hrepr' := by
    rw [hfraction, hmillion, finite_mul]
    exact dif_pos (hp.trans_lt hmillionLt)
  rw [ofSeconds, hproduct, Bool.bne_false]
  change ofMicros (signed s (units / 2 ^ 1074) * 10 ^ 6 + signed s (nearestEven _ (2 ^ 1074))) = _
  rw [← unitsOfOne_eq]
  exact congrArg ofMicros (signed_add s _ _ (10 ^ 6))

theorem ofMicros_of_le {m : Nat} (h : m ≤ 10 ^ 18) : ofMicros m = .ok ⟨m⟩ := by
  have hdays : Int.fdiv m microsPerDay = (m : Int) / 86400000000 :=
    Int.fdiv_eq_ediv_of_nonneg _ (by decide)
  have hword : ¬ ((m : Int) / 86400000000 < -2 ^ 31 ∨ 2 ^ 31 ≤ (m : Int) / 86400000000) := by omega
  have hday : ¬ 999999999 < ((m : Int) / 86400000000).natAbs := by omega
  rw [ofMicros, hdays]
  exact (if_neg hword).trans (if_neg hday)

def longest : Nat := 240000000000

theorem ofRatio_micro : ∃ h, Binary64.ofRatio 1 (10 ^ 6) = .finite false microUnits h := by
  have hlt : roundUnits (1 * unitsOfOne) (10 ^ 6) < threshold := by
    rw [Nat.one_mul]
    exact microUnits_le.trans_lt unitsOfOne_lt_threshold
  have h := ofRatio_natCast hlt
  simp only [Nat.one_mul, Nat.cast_one] at h
  exact ⟨_, h⟩

theorem allMicros_zero : allMicros 0 = 0 := by
  rw [allMicros, restMicros_zero, Nat.zero_div, Nat.zero_mul]

theorem allMicros_le (h : units ≤ longest * unitsOfOne) :
    allMicros units ≤ (longest + 1) * 10 ^ 6 := by
  have hwhole : units / unitsOfOne ≤ longest :=
    Nat.div_le_of_le_mul (by rwa [Nat.mul_comm])
  calc allMicros units ≤ longest * 10 ^ 6 + 10 ^ 6 :=
        Nat.add_le_add (Nat.mul_le_mul_right _ hwhole) (restMicros_le units)
    _ = (longest + 1) * 10 ^ 6 := (Nat.succ_mul _ _).symm

theorem allMicros_pos (h : microUnits ≤ units) : 0 < allMicros units := by
  rcases Nat.lt_or_ge units unitsOfOne with hlt | hge
  · exact Nat.add_pos_right _ (restMicros_pos h hlt)
  · have hwhole := Nat.div_pos hge unitsOfOne_pos
    exact Nat.add_pos_left (Nat.mul_pos hwhole (by decide)) _

theorem ofSeconds_of_le {x : Binary64} (hx : ¬ x < Binary64.zero) (hle : x ≤ Binary64.ofInt longest) :
    ∃ m : Nat, ofSeconds x = .ok ⟨m⟩ ∧ m ≤ (longest + 1) * 10 ^ 6 ∧
      (Binary64.ofRatio 1 (10 ^ 6) ≤ x → 0 < m) := by
  obtain ⟨hl, hlongest⟩ := ofInt_natCast (m := longest) (by decide)
  obtain ⟨hm, hmicro⟩ := ofRatio_micro
  rw [hlongest] at hle
  rw [hmicro]
  cases x with
  | nan => cases hle
  | infinite s =>
      cases s with
      | true => exact absurd rfl hx
      | false => cases hle
  | finite s u hu =>
      have hle : signed s u ≤ signed false (longest * unitsOfOne) := of_decide_eq_true hle
      have hx : ¬ signed s u < signed false 0 := fun h => hx (decide_eq_true h)
      rw [ofSeconds_finite]
      cases s with
      | true =>
          -- a zero may have a sign
          have hzero : u = 0 := by
            have hx : ¬ -(u : Int) < 0 := hx
            omega
          subst hzero
          rw [allMicros_zero]
          refine ⟨0, ofMicros_of_le (Nat.zero_le _), Nat.zero_le _, fun h => ?_⟩
          have h : (microUnits : Int) ≤ -(0 : Nat) := of_decide_eq_true h
          have hpos := microUnits_pos
          omega
      | false =>
          have hbound := allMicros_le (Int.ofNat_le.1 hle)
          exact ⟨_, ofMicros_of_le (hbound.trans (by decide)), hbound,
            fun h => allMicros_pos (Int.ofNat_le.1 (of_decide_eq_true h))⟩

end Duration

namespace Instant

variable {t : Instant} {x : Binary64}

def year (t : Instant) : Nat := Date.yearOfDay (t.wall / (86400 * 10 ^ 6))

theorem wall_lt_of_year (h : t.year ≤ 2100) : t.wall < 767009 * (86400 * 10 ^ 6) := by
  have hday := Date.lt_daysBeforeYear_yearOfDay (t.wall / (86400 * 10 ^ 6))
  have hyear : Date.daysBeforeYear (t.year + 1) ≤ Date.daysBeforeYear 2101 :=
    Date.daysBeforeYear_mono (by omega)
  have hcount : Date.daysBeforeYear 2101 = 767009 := by decide
  have hlt : t.wall / (86400 * 10 ^ 6) < 767009 := hcount ▸ Nat.lt_of_lt_of_le hday hyear
  omega

/-- From any time up to the year 2100 such a duration leads to another date, and to a later one if it is a
microsecond at least. -/
theorem addSeconds_of_le (ht : t.year ≤ 2100) (hx : ¬ x < Binary64.zero)
    (hle : x ≤ Binary64.ofInt Duration.longest) :
    ∃ u, t.addSeconds x = .ok u ∧ (Binary64.ofRatio 1 (10 ^ 6) ≤ x → t.reaches u = .ok false) := by
  obtain ⟨m, hm, hbound, hpos⟩ := Duration.ofSeconds_of_le hx hle
  have hwall := wall_lt_of_year ht
  have hlongest : (Duration.longest + 1) * 10 ^ 6 = 240000000001000000 := by decide
  have hcount : Date.dayCount * (86400 * 10 ^ 6) = 315537897600000000 := by decide
  have hlt : ((t.wall : Int) + m).toNat < Date.dayCount * (86400 * 10 ^ 6) := by omega
  let u : Instant := ⟨((t.wall : Int) + m).toNat, t.offset, hlt⟩
  have hadd : t.add ⟨m⟩ = .ok u := by
    have hnonneg : 0 ≤ (t.wall : Int) + m := by omega
    rw [add, ofWall?]
    dsimp only
    rw [dif_pos hlt, if_pos hnonneg]
  refine ⟨u, ?_, fun h => reaches_eq_false_iff.2 ⟨-m, gap?_symm (gap?_add hadd), ?_⟩⟩
  · rw [addSeconds, hm]
    exact hadd
  · have := hpos h
    omega

end Instant

end KeyedBreaker
