import KeyedBreaker.Proofs.Binary64.Error
import KeyedBreaker.Proofs.Calendar.Duration
import KeyedBreaker.Record.Transition

namespace KeyedBreaker

namespace Binary64

variable {f p q t : Nat}

theorem roundUnits_mul_unitsOfOne_lt_threshold (h : p ≤ q) : roundUnits (p * unitsOfOne) q < threshold :=
  unitsOfOne_eq ▸ roundUnits_lt_threshold h

theorem ofRatio_lt_iff_roundUnits (hf : f ≤ t) (hp : p ≤ q) :
    Binary64.ofRatio f t < Binary64.ofRatio p q ↔
      roundUnits (f * unitsOfOne) t < roundUnits (p * unitsOfOne) q := by
  rw [ofRatio_natCast (roundUnits_mul_unitsOfOne_lt_threshold hf),
    ofRatio_natCast (roundUnits_mul_unitsOfOne_lt_threshold hp)]
  refine Iff.trans decide_eq_true_iff ?_
  exact Int.ofNat_lt

theorem not_ofRatio_lt (ht : 0 < t) (hq : 0 < q) (hf : f ≤ t) (hp : p ≤ q) (h : p * t ≤ f * q) :
    ¬ Binary64.ofRatio f t < Binary64.ofRatio p q := by
  rw [ofRatio_lt_iff_roundUnits hf hp, Nat.not_lt]
  apply roundUnits_mono hq ht
  calc p * unitsOfOne * t = p * t * unitsOfOne := by ring
    _ ≤ f * q * unitsOfOne := Nat.mul_le_mul_right unitsOfOne h
    _ = f * unitsOfOne * q := by ring

theorem near_fraction {k : Nat} (hk : unitsOfOne = 2 ^ 53 * 2 ^ k) (hq : 0 < q) (hp : p ≤ q) :
    Near (p * unitsOfOne) q (2 ^ k) (roundUnits (p * unitsOfOne) q) := by
  rcases Nat.eq_or_lt_of_le hp with rfl | hlt
  · -- one is a number of the format
    have hone : roundUnits (p * unitsOfOne) p = unitsOfOne := by
      rw [roundUnits_mul_self hq, Nat.one_mul, roundUnits_unitsOfOne]
    rw [hone, Nat.mul_comm p]
    constructor <;> omega
  · apply near_roundUnits hq
    rw [← hk, Nat.mul_comm unitsOfOne]
    exact Nat.mul_lt_mul_of_pos_right hlt unitsOfOne_pos

/-- Fractions with small denominators are compared exactly after they are rounded: they are further
apart than the numbers of the format below one. -/
theorem ofRatio_lt_iff (ht : 0 < t) (hq : 0 < q) (hf : f ≤ t) (hp : p ≤ q) (hsmall : t * q < 2 ^ 53) :
    Binary64.ofRatio f t < Binary64.ofRatio p q ↔ f * q < p * t := by
  refine ⟨fun h => Nat.lt_of_not_le fun hle => not_ofRatio_lt ht hq hf hp hle h, fun h => ?_⟩
  rw [ofRatio_lt_iff_roundUnits hf hp]
  obtain ⟨k, hk⟩ := exists_unitsOfOne_eq (m := 53) (by decide)
  apply (near_fraction hk ht hf).lt (near_fraction hk hq hp)
  have hgap : t * q * 2 ^ k < unitsOfOne := by
    rw [hk]
    exact Nat.mul_lt_mul_of_pos_right hsmall (Nat.two_pow_pos k)
  calc f * unitsOfOne * q + t * q * 2 ^ k < f * unitsOfOne * q + unitsOfOne :=
        Nat.add_lt_add_left hgap _
    _ = (f * q + 1) * unitsOfOne := by ring
    _ ≤ p * t * unitsOfOne := Nat.mul_le_mul_right unitsOfOne h
    _ = p * unitsOfOne * t := by ring

end Binary64

namespace Record

variable {c : Config} {now : Instant} {r : Record}

theorem quotient_natCast {f t : Nat} (h : f ≤ t) : quotient f t = .ok (Binary64.ofRatio f t) := by
  have hsign : ∀ {m : Nat}, decide ((m : Int) < 0) = false := decide_eq_false (by omega)
  have hfinite := Binary64.ofRatio_natCast (Binary64.roundUnits_mul_unitsOfOne_lt_threshold h)
  have hratio : Binary64.ofUnits (decide ((f : Int) < 0) != decide ((t : Int) < 0))
      ((f : Int).natAbs * 2 ^ 1074) (t : Int).natAbs = Binary64.ofRatio f t := by
    rw [hsign, hsign]
    rfl
  rw [quotient, hratio, hfinite]
  rfl

theorem due_closed_of_window (hw : r.windowExpired now = .ok false)
    (hmin : c.failureThreshold ≤ r.failureCount) {share : Binary64}
    (hshare : r.failureRatio = .ok (some share)) :
    due c .closed now r = .ok (if share < c.failureRatio then none else some .open) := by
  have hcount : ¬ r.failureCount < c.failureThreshold := by omega
  by_cases hlt : share < c.failureRatio <;>
    simp [due, opens, hw, hcount, hshare, hlt, Except.mapError, bind, Except.bind]

/-- A least share of failures that is given as the fraction `p / q` is compared exactly: within the window
and with failures enough, a closed circuit opens when the failures are `p` of every `q` calls, or more,
and, unless the counts are very large, only then. -/
theorem due_open_iff_share_reached {p q : Nat} (hq : 0 < q) (hp : p ≤ q)
    (hc : c.failureRatio = Binary64.ofRatio p q) (hw : r.windowExpired now = .ok false)
    (hmin : c.failureThreshold ≤ r.failureCount) (hf : 0 ≤ r.failureCount)
    (hle : r.failureCount ≤ r.totalCount) (ht : 0 < r.totalCount) :
    (due c .closed now r = .ok (some .open) ∨ due c .closed now r = .ok none) ∧
      (p * r.totalCount ≤ r.failureCount * q → due c .closed now r = .ok (some .open)) ∧
      (r.totalCount * q < 2 ^ 53 →
        (due c .closed now r = .ok (some .open) ↔ p * r.totalCount ≤ r.failureCount * q)) := by
  obtain ⟨f, hf⟩ := Int.eq_ofNat_of_zero_le hf
  obtain ⟨t, ht'⟩ := Int.eq_ofNat_of_zero_le ht.le
  rw [hf, ht'] at hle
  rw [ht'] at ht
  have hle : f ≤ t := Int.ofNat_le.1 hle
  have ht : 0 < t := Int.ofNat_lt.1 ht
  have hshare : r.failureRatio = .ok (some (Binary64.ofRatio f t)) := by
    rw [failureRatio, hf, ht', if_neg (by omega), quotient_natCast hle]
    rfl
  rw [due_closed_of_window hw hmin hshare, hc, hf, ht']
  norm_cast
  have hreached (h : p * t ≤ f * q) : ¬ Binary64.ofRatio f t < Binary64.ofRatio p q :=
    Binary64.not_ofRatio_lt ht hq hle hp h
  refine ⟨?_, fun h => by rw [if_neg (hreached h)], fun hsmall => ?_⟩
  · split <;> simp
  · rw [← Nat.not_lt, ← Binary64.ofRatio_lt_iff ht hq hle hp hsmall]
    split <;> simp [*]

def sensitive : Config where
  failureThreshold := 1
  failureRatio := Binary64.ofRatio 1 10

def oneInTen : Record where
  failureCount := 1
  totalCount := 10
  resetAt := some ⟨1, none, by decide⟩

theorem due_open_iff_share_reached_oneInTen :
    due sensitive .closed ⟨0, none, by decide⟩ oneInTen = .ok (some .open) := by
  have hratio : sensitive.failureRatio = Binary64.ofRatio (1 : Nat) 10 := by
    unfold sensitive
    dsimp only
    rfl
  have hwindow : oneInTen.windowExpired ⟨0, none, by decide⟩ = .ok false := by decide
  have hreached := due_open_iff_share_reached (by decide) (by decide) hratio hwindow (by decide)
    (by decide) (by decide) (by decide)
  exact (hreached.2.2 (by decide)).2 (by decide)

end Record

end KeyedBreaker
