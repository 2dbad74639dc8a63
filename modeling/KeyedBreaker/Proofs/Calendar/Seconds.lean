import KeyedBreaker.Proofs.Binary64.Error
import KeyedBreaker.Proofs.Calendar.Duration

namespace KeyedBreaker

open Binary64 Rounding

variable {k m n u : Nat}

theorem Rounding.nearestEven_eq {d : Nat} (hbelow : 2 * (m * d) < 2 * n + d) (habove : 2 * n < 2 * (m * d) + d) :
    nearestEven n d = m := by
  obtain ⟨hle, hge⟩ := nearestEven_error (n := n) (d := d) (by omega)
  apply Nat.le_antisymm
  · have hlt : nearestEven n d * d < (m + 1) * d := by
      rw [Nat.succ_mul]
      omega
    exact Nat.le_of_lt_succ (Nat.lt_of_mul_lt_mul_right hlt)
  · have hlt : m * d < (nearestEven n d + 1) * d := by
      rw [Nat.succ_mul]
      omega
    exact Nat.le_of_lt_succ (Nat.lt_of_mul_lt_mul_right hlt)

theorem Binary64.roundUnits_mod_unitsOfOne (h : 2 ^ (u.log2 - 52) ∣ u) :
    roundUnits (u % unitsOfOne) 1 = u % unitsOfOne := by
  have hlog : u < 2 ^ (53 + (u.log2 - 52)) :=
    (lt_two_pow_log2 u).trans_le (Nat.pow_le_pow_right (by decide) (by omega))
  generalize u.log2 - 52 = places at h hlog
  obtain ⟨q, rfl⟩ := h
  rcases Nat.le_total places 1074 with hle | hge
  · obtain ⟨k, hk⟩ := exists_unitsOfOne_eq hle
    have hq : q < 2 ^ 53 := by
      rw [Nat.pow_add, Nat.mul_comm (2 ^ 53)] at hlog
      exact Nat.lt_of_mul_lt_mul_left hlog
    rw [hk, Nat.mul_mod_mul_left, Nat.mul_comm]
    exact roundUnits_mul_two_pow ((Nat.mod_le q _).trans_lt hq) places
  · have hdvd : unitsOfOne ∣ 2 ^ places * q := (unitsOfOne_dvd hge).mul_right q
    rw [Nat.mod_eq_zero_of_dvd hdvd, roundUnits_zero Nat.one_pos]

namespace Binary64

theorem zero_le_zero : zero ≤ zero := by decide +kernel

theorem ofUnits_lt_zero (hd : 0 < m) (h : m ≤ n) : ofUnits true n m < zero := by
  unfold ofUnits
  split
  · have hpos := roundUnits_pos hd h
    exact decide_eq_true (Int.neg_neg_of_pos (Int.natCast_pos.2 hpos))
  · rfl

theorem ofUnits_le_ofUnits {n' m' : Nat} (hm : 0 < m) (hm' : 0 < m') (h : n * m' ≤ n' * m) :
    ofUnits false n m ≤ ofUnits false n' m' := by
  have hle := roundUnits_mono hm hm' h
  unfold ofUnits
  split <;> split
  · exact decide_eq_true (Int.ofNat_le.2 hle)
  · rfl
  · omega
  · rfl

end Binary64

namespace Duration

variable {d d' : Duration}

def secondsUnits (n : Nat) : Nat := roundUnits (n * unitsOfOne) (10 ^ 6)

theorem near_secondsUnits (hk : unitsOfOne = 2 ^ 20 * 2 ^ k) (h : n < 2 ^ 33 * 10 ^ 6) :
    Near (n * unitsOfOne) (10 ^ 6) (2 ^ k) (secondsUnits n) := by
  apply near_roundUnits (by decide)
  calc n * unitsOfOne < 2 ^ 33 * 10 ^ 6 * unitsOfOne := Nat.mul_lt_mul_of_pos_right h unitsOfOne_pos
    _ = 2 ^ 53 * 2 ^ k * 10 ^ 6 := by
        rw [hk]
        ring

theorem mul_unitsOfOne_split (n : Nat) :
    n * unitsOfOne = 10 ^ 6 * (n / 10 ^ 6 * unitsOfOne) + n % 10 ^ 6 * unitsOfOne := by
  rw [← Nat.mul_assoc, ← Nat.add_mul, Nat.div_add_mod]

/-- The whole seconds are kept. -/
theorem secondsUnits_div (h : n < 2 ^ 33 * 10 ^ 6) : secondsUnits n / unitsOfOne = n / 10 ^ 6 := by
  obtain ⟨k, hk⟩ := exists_unitsOfOne_eq (m := 20) (by decide)
  have hnear := (near_secondsUnits hk h).below
  have hsplit := mul_unitsOfOne_split n
  have hrest : n % 10 ^ 6 * unitsOfOne ≤ (10 ^ 6 - 1) * unitsOfOne :=
    Nat.mul_le_mul_right _ (by omega)
  have hwhole : n / 10 ^ 6 < 2 ^ 53 := by omega
  apply Nat.div_eq_of_lt_le
  · rw [← roundUnits_mul_unitsOfOne hwhole]
    apply roundUnits_mono Nat.one_pos (by decide)
    omega
  · rw [Nat.succ_mul]
    have hpos := Nat.two_pow_pos k
    generalize 2 ^ k = e at *
    omega

theorem near_secondsUnits_mod (hk : unitsOfOne = 2 ^ 20 * 2 ^ k) (h : n < 2 ^ 33 * 10 ^ 6) :
    Near (n % 10 ^ 6 * unitsOfOne) (10 ^ 6) (2 ^ k) (secondsUnits n % unitsOfOne) := by
  obtain ⟨hbelow, habove⟩ := near_secondsUnits hk h
  have hsplit := mul_unitsOfOne_split n
  have hunits := Nat.div_add_mod (secondsUnits n) unitsOfOne
  rw [secondsUnits_div h, Nat.mul_comm] at hunits
  constructor <;> linarith

theorem restMicros_secondsUnits (h : n < 2 ^ 33 * 10 ^ 6) : restMicros (secondsUnits n) = n % 10 ^ 6 := by
  obtain ⟨k, hk⟩ := exists_unitsOfOne_eq (m := 33) (by decide)
  have hk' : unitsOfOne = 2 ^ 20 * 2 ^ (13 + k) := by
    rw [hk]
    ring
  obtain ⟨hbelow, habove⟩ := near_secondsUnits_mod hk' h
  have hfraction : roundUnits (secondsUnits n % unitsOfOne) 1 = secondsUnits n % unitsOfOne :=
    roundUnits_mod_unitsOfOne (roundUnits_dvd _ _)
  rw [restMicros, hfraction]
  have hlt := Nat.mod_lt (secondsUnits n) unitsOfOne_pos
  generalize secondsUnits n % unitsOfOne = f at *
  have hproduct : Near (f * (10 ^ 6 * unitsOfOne)) unitsOfOne (2 ^ k)
      (roundUnits (f * (10 ^ 6 * unitsOfOne)) unitsOfOne) := by
    apply near_roundUnits unitsOfOne_pos
    rw [← Nat.mul_assoc]
    refine Nat.mul_lt_mul_of_pos_right ?_ unitsOfOne_pos
    have hpos := Nat.two_pow_pos k
    rw [hk] at hlt
    linarith
  obtain ⟨hbelow', habove'⟩ := hproduct
  generalize roundUnits (f * (10 ^ 6 * unitsOfOne)) unitsOfOne = p at *
  rw [← Nat.mul_assoc] at hbelow' habove'
  have hpos := Nat.two_pow_pos k
  have hbelow' : 2 * p ≤ 2 * (f * 10 ^ 6) + 2 ^ k := by
    refine Nat.le_of_mul_le_mul_right ?_ unitsOfOne_pos
    linarith
  have habove' : 2 * (f * 10 ^ 6) ≤ 2 * p + 2 ^ k := by
    refine Nat.le_of_mul_le_mul_right ?_ unitsOfOne_pos
    linarith
  rw [Nat.pow_add] at hbelow habove
  apply nearestEven_eq
  · linarith
  · linarith

theorem allMicros_secondsUnits (h : n < 2 ^ 33 * 10 ^ 6) : allMicros (secondsUnits n) = n := by
  rw [allMicros, secondsUnits_div h, restMicros_secondsUnits h, Nat.mul_comm, Nat.div_add_mod]

theorem secondsUnits_lt_threshold (h : n < 2 ^ 33 * 10 ^ 6) : secondsUnits n < threshold := by
  refine Nat.lt_of_le_of_lt ?_ (mul_unitsOfOne_lt_threshold (m := 2 ^ 33) (by decide))
  refine roundUnits_le_of_fixed (by decide) ?_ (roundUnits_mul_unitsOfOne (by decide))
  calc n * unitsOfOne ≤ 2 ^ 33 * 10 ^ 6 * unitsOfOne := Nat.mul_le_mul_right _ h.le
    _ = 2 ^ 33 * unitsOfOne * 10 ^ 6 := by ring

theorem seconds_natCast (h : n < 2 ^ 33 * 10 ^ 6) :
    ∃ hr, (⟨n⟩ : Duration).seconds = .finite false (secondsUnits n) hr :=
  ⟨_, ofRatio_natCast (secondsUnits_lt_threshold h)⟩

/-- No microsecond is lost when a duration below 2³³ seconds is read back. -/
theorem ofSeconds_seconds (hpos : 0 ≤ d.micros) (h : d.micros < 2 ^ 33 * 10 ^ 6) :
    ofSeconds d.seconds = .ok d := by
  obtain ⟨n, hn⟩ := Int.eq_ofNat_of_zero_le hpos
  obtain rfl : d = ⟨n⟩ := congrArg mk hn
  have h : n < 2 ^ 33 * 10 ^ 6 := Int.ofNat_lt.1 h
  obtain ⟨hr, hseconds⟩ := seconds_natCast h
  rw [hseconds, ofSeconds_finite]
  change ofMicros (allMicros (secondsUnits n) : Nat) = _
  rw [allMicros_secondsUnits h]
  exact ofMicros_of_le (by omega)

def left (d : Duration) : Binary64 := d.seconds.max Binary64.zero

theorem left_of_pos (h : 0 < d.micros) : d.left = d.seconds := max_zero_of_pos (zero_lt_seconds h)

theorem seconds_lt_zero (h : d.micros < 0) : d.seconds < Binary64.zero := by
  have hle := million_le_mul (m := d.micros.natAbs) (k := 1074) (by omega) (by decide)
  rw [seconds, Binary64.ofRatio, decide_eq_true h]
  exact ofUnits_lt_zero (by decide) hle

theorem left_of_nonpos (h : d.micros ≤ 0) : d.left = Binary64.zero := by
  rcases Int.lt_or_eq_of_le h with hneg | hzero
  · rw [left, Binary64.max, if_pos (seconds_lt_zero hneg)]
  · obtain rfl : d = ⟨0⟩ := congrArg mk hzero
    decide +kernel

theorem zero_le_left (d : Duration) : Binary64.zero ≤ d.left := by
  rcases Int.lt_or_le 0 d.micros with hpos | hd
  · rw [left_of_pos hpos]
    exact le_of_lt (zero_lt_seconds hpos)
  · rw [left_of_nonpos hd]
    exact zero_le_zero

theorem left_eq_zero_iff : d.left = Binary64.zero ↔ d.micros ≤ 0 := by
  refine ⟨fun h => ?_, left_of_nonpos⟩
  by_contra hpos
  have hlt := zero_lt_seconds (Int.not_le.1 hpos)
  rw [← left_of_pos (Int.not_le.1 hpos), h] at hlt
  exact absurd hlt (by decide +kernel)

theorem left_mono (h : d.micros ≤ d'.micros) : d.left ≤ d'.left := by
  rcases Int.lt_or_le 0 d.micros with hpos | hd
  · rw [left_of_pos hpos, left_of_pos (hpos.trans_le h), seconds, seconds, ofRatio, ofRatio,
      decide_eq_false (by omega), decide_eq_false (by omega)]
    exact ofUnits_le_ofUnits (by decide) (by decide)
      (Nat.mul_le_mul_right _ (Nat.mul_le_mul_right _ (by omega)))
  · rw [left_of_nonpos hd]
    exact zero_le_left d'

end Duration

namespace Instant

variable {a b t u deadline : Instant} {d : Duration}

theorem gap?_of_since (h : a.since b = .ok d) : gap? a b = some d.micros := by
  unfold since at h
  cases hg : gap? a b with
  | none => rw [hg] at h; cases h
  | some gap =>
      rw [hg] at h
      cases h
      rfl

theorem add_of_gap? (ho : u.offset = t.offset) (hg : gap? u t = some d.micros) : t.add d = .ok u := by
  have hwall : (t.wall : Int) + d.micros = u.wall := by
    unfold gap? at hg
    rw [ho] at hg
    cases hoff : t.offset with
    | none =>
        rw [hoff] at hg
        have hg := Option.some.inj hg
        omega
    | some o =>
        rw [hoff] at hg
        have hg := Option.some.inj hg
        unfold universal at hg
        omega
  have hofWall : ofWall? u.wall u.offset = some u := by
    rw [ofWall?, dif_pos (by rw [Int.toNat_natCast]; exact u.wall_lt), if_pos (Int.natCast_nonneg _)]
    rfl
  rw [add, hwall, ← ho, hofWall]

/-- A clock that is set on by the seconds that are left until a deadline shows the time of the deadline. -/
theorem addSeconds_left (hd : deadline.since t = .ok d) (hpos : 0 < d.micros)
    (h : d.micros < 2 ^ 33 * 10 ^ 6) (ho : u.offset = t.offset) (hu : gap? u deadline = some 0) :
    t.addSeconds d.left = .ok u := by
  have hgap := gap?_trans hu (gap?_of_since hd)
  rw [Int.zero_add] at hgap
  rw [addSeconds, Duration.left_of_pos hpos, Duration.ofSeconds_seconds hpos.le h]
  exact add_of_gap? ho hgap

end Instant

end KeyedBreaker
