import KeyedBreaker.Calendar.Instant

namespace KeyedBreaker

namespace Binary64

theorem roundUnits_pos {n d : Nat} (hd : 0 < d) (h : d ≤ n) : 0 < roundUnits n d := by
  have hq : n / d ≠ 0 := Nat.ne_of_gt (Nat.div_pos h hd)
  have hpow : 2 ^ ((n / d).log2 - 52) ≤ n / d :=
    Nat.le_trans (Nat.pow_le_pow_right (by decide) (Nat.sub_le _ _)) (Nat.log2_self_le hq)
  have hdiv : 0 < n / (d * 2 ^ ((n / d).log2 - 52)) := by
    rw [← Nat.div_div_eq_div_mul]
    exact Nat.div_pos hpow (Nat.two_pow_pos _)
  exact Nat.mul_pos (Nat.lt_of_lt_of_le hdiv Rounding.div_le_nearestEven) (Nat.two_pow_pos _)

theorem zero_lt_ofUnits {n d : Nat} (hd : 0 < d) (h : d ≤ n) : zero < ofUnits false n d := by
  unfold ofUnits
  split
  · exact decide_eq_true (Int.natCast_pos.2 (roundUnits_pos hd h))
  · rfl

theorem max_zero_of_pos {x : Binary64} (h : zero < x) : x.max zero = x := by
  have hx : ¬ x < zero := by
    intro hn
    cases x with
    | nan => cases h
    | infinite s =>
        cases s with
        | false => exact Bool.false_ne_true hn
        | true => exact Bool.false_ne_true h
    | finite s u hu =>
        have h : signed false 0 < signed s u := of_decide_eq_true h
        have hn : signed s u < signed false 0 := of_decide_eq_true hn
        omega
  rw [Binary64.max, if_neg hx]

end Binary64

theorem million_le_mul {m k : Nat} (hm : 0 < m) (hk : 20 ≤ k) : 10 ^ 6 ≤ m * 2 ^ k :=
  calc 10 ^ 6 ≤ 2 ^ 20 := by decide
    _ ≤ 2 ^ k := Nat.pow_le_pow_right (by decide) hk
    _ ≤ m * 2 ^ k := Nat.le_mul_of_pos_left _ hm

theorem Duration.zero_lt_seconds {d : Duration} (h : 0 < d.micros) : Binary64.zero < d.seconds := by
  have hn : decide (d.micros < 0) = false := decide_eq_false (by omega)
  have hm : 0 < d.micros.natAbs := by omega
  have hle := million_le_mul (k := 1074) hm (by decide)
  rw [Duration.seconds, Binary64.ofRatio, hn]
  exact Binary64.zero_lt_ofUnits (by decide) hle

namespace Instant

variable {a b c t t' u u' : Instant} {seconds : Binary64}

theorem reaches_eq_true_iff : a.reaches b = .ok true ↔ ∃ gap, gap? a b = some gap ∧ 0 ≤ gap := by
  unfold reaches
  cases gap? a b with
  | none => simp
  | some gap => simp

theorem reaches_eq_false_iff : a.reaches b = .ok false ↔ ∃ gap, gap? a b = some gap ∧ gap < 0 := by
  unfold reaches
  cases gap? a b with
  | none => simp
  | some gap => simp

theorem gap?_trans {m n : Int} (h : gap? a b = some m) (h' : gap? b c = some n) :
    gap? a c = some (m + n) := by
  unfold gap? at h h' ⊢
  cases ha : a.offset <;> cases hb : b.offset <;> cases hc : c.offset <;>
    rw [ha, hb] at h <;> rw [hb, hc] at h' <;> cases h <;> cases h' <;>
    exact congrArg some (by omega)

theorem gap?_self (a : Instant) : gap? a a = some 0 := by
  unfold gap?
  cases a.offset with
  | none => exact congrArg some (by omega)
  | some o => exact congrArg some (by omega)

theorem gap?_symm {m : Int} (h : gap? a b = some m) : gap? b a = some (-m) := by
  unfold gap? at h ⊢
  cases ha : a.offset <;> cases hb : b.offset <;> rw [ha, hb] at h <;> cases h <;>
    exact congrArg some (by omega)

theorem reaches_self (a : Instant) : a.reaches a = .ok true :=
  reaches_eq_true_iff.2 ⟨0, gap?_self a, Int.le_refl 0⟩

theorem reaches_trans (h : a.reaches b = .ok true) (h' : b.reaches c = .ok true) :
    a.reaches c = .ok true := by
  obtain ⟨m, hm, hm0⟩ := reaches_eq_true_iff.1 h
  obtain ⟨n, hn, hn0⟩ := reaches_eq_true_iff.1 h'
  exact reaches_eq_true_iff.2 ⟨m + n, gap?_trans hm hn, by omega⟩

theorem reaches_eq_false_trans (h : a.reaches b = .ok false) (h' : c.reaches b = .ok true) :
    a.reaches c = .ok false := by
  obtain ⟨m, hm, hm0⟩ := reaches_eq_false_iff.1 h
  obtain ⟨n, hn, hn0⟩ := reaches_eq_true_iff.1 h'
  exact reaches_eq_false_iff.2 ⟨m + -n, gap?_trans hm (gap?_symm hn), by omega⟩

theorem add_eq_ok {d : Duration} (h : t.add d = .ok u) :
    (u.wall : Int) = t.wall + d.micros ∧ u.offset = t.offset := by
  unfold add ofWall? at h
  split at h
  · rename_i b hb
    cases h
    split at hb
    · split at hb
      · rename_i h0
        cases hb
        exact ⟨Int.toNat_of_nonneg h0, rfl⟩
      · cases hb
    · cases hb
  · cases h

theorem addSeconds_eq_ok (h : t.addSeconds seconds = .ok u) :
    ∃ d, Duration.ofSeconds seconds = .ok d ∧ t.add d = .ok u := by
  unfold addSeconds at h
  cases hd : Duration.ofSeconds seconds with
  | error e => rw [hd] at h; cases h
  | ok d => rw [hd] at h; exact ⟨d, rfl, h⟩

theorem gap?_add {d : Duration} (h : t.add d = .ok u) : gap? u t = some d.micros := by
  obtain ⟨hw, ho⟩ := add_eq_ok h
  unfold gap?
  rw [ho]
  cases t.offset with
  | none => exact congrArg some (by omega)
  | some o =>
      refine congrArg some ?_
      unfold universal
      omega

theorem reaches_addSeconds (h : t.addSeconds seconds = .ok u) : ∃ passed, t.reaches u = .ok passed := by
  obtain ⟨d, -, hd⟩ := addSeconds_eq_ok h
  rw [reaches, gap?_symm (gap?_add hd)]
  exact ⟨_, rfl⟩

theorem reaches_addSeconds_of_reaches (ht : t'.reaches t = .ok true)
    (h : t.addSeconds seconds = .ok u) : ∃ passed, t'.reaches u = .ok passed := by
  obtain ⟨d, -, hd⟩ := addSeconds_eq_ok h
  obtain ⟨m, hm, -⟩ := reaches_eq_true_iff.1 ht
  rw [reaches, gap?_trans hm (gap?_symm (gap?_add hd))]
  exact ⟨_, rfl⟩

theorem reaches_ok_trans (h : ∃ passed, a.reaches b = .ok passed)
    (h' : ∃ passed, b.reaches c = .ok passed) : ∃ passed, a.reaches c = .ok passed := by
  have hgap : ∀ {d e : Instant}, (∃ passed, d.reaches e = .ok passed) → ∃ m, gap? d e = some m := by
    rintro d e ⟨passed, hp⟩
    unfold reaches at hp
    cases hg : gap? d e with
    | none => rw [hg] at hp; cases hp
    | some m => exact ⟨m, rfl⟩
  obtain ⟨m, hm⟩ := hgap h
  obtain ⟨n, hn⟩ := hgap h'
  rw [reaches, gap?_trans hm hn]
  exact ⟨_, rfl⟩

/-- The later a deadline is set, the later it is. -/
theorem addSeconds_reaches (h : t'.reaches t = .ok true) (hu : t.addSeconds seconds = .ok u)
    (hu' : t'.addSeconds seconds = .ok u') : u'.reaches u = .ok true := by
  obtain ⟨d, hd, hu⟩ := addSeconds_eq_ok hu
  obtain ⟨d', hd', hu'⟩ := addSeconds_eq_ok hu'
  rw [hd] at hd'
  cases hd'
  obtain ⟨m, hm, hm0⟩ := reaches_eq_true_iff.1 h
  have hgap := gap?_trans (gap?_trans (gap?_add hu') hm) (gap?_symm (gap?_add hu))
  exact reaches_eq_true_iff.2 ⟨_, hgap, by omega⟩

theorem since_of_reaches (h : ∃ passed, a.reaches b = .ok passed) : ∃ d, b.since a = .ok d := by
  obtain ⟨passed, hp⟩ := h
  unfold reaches at hp
  cases hg : gap? a b with
  | none => rw [hg] at hp; cases hp
  | some m =>
      rw [since, gap?_symm hg]
      exact ⟨_, rfl⟩

theorem since_of_reaches_eq_false (h : a.reaches b = .ok false) :
    ∃ d, b.since a = .ok d ∧ 0 < d.micros := by
  obtain ⟨m, hm, hm0⟩ := reaches_eq_false_iff.1 h
  refine ⟨⟨-m⟩, ?_, ?_⟩
  · rw [since, gap?_symm hm]
  · change 0 < -m
    omega

end Instant

end KeyedBreaker
