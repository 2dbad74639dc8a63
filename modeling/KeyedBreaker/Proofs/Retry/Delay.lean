import KeyedBreaker.Proofs.Binary64.Nonnegative
import KeyedBreaker.Retry.Policy

namespace KeyedBreaker.Retry.Policy

open Binary64

variable {p : Policy} {fraction growth growth' longest : Binary64} {n m : Nat}

/-- Seconds that are accepted and are numbers, though they may be infinite. -/
structure Numeric (p : Policy) : Prop where
  attempts : 1 ≤ p.attempts
  minSeconds : zero ≤ p.minSeconds
  maxSeconds : zero ≤ p.maxSeconds
  jitterSeconds : zero ≤ p.jitterSeconds

theorem Numeric.of_check (h : p.check = .ok ()) (hmin : p.minSeconds.isNaN = false)
    (hmax : p.maxSeconds.isNaN = false) (hjitter : p.jitterSeconds.isNaN = false) : p.Numeric := by
  unfold check at h
  split_ifs at h with hattempts hless hnegative hbounds hspread
  exact ⟨Int.not_lt.1 hattempts, le_of_not_lt rfl hmin hless, le_of_not_lt rfl hmax hnegative,
    le_of_not_lt rfl hjitter hspread⟩

def bounded (longest growth : Binary64) : Binary64 := zero.max (growth.min longest)

theorem bounded_nan (longest : Binary64) : bounded longest .nan = zero := by
  cases longest <;> rfl

theorem exists_rank_bounded (hl : zero ≤ longest) (growth : Binary64) :
    ∃ b c, (bounded longest growth).rank = some b ∧ longest.rank = some c ∧ 0 ≤ b ∧ b ≤ c := by
  obtain ⟨a, c, ha, hc, hac⟩ := exists_rank_of_le hl
  obtain rfl : 0 = a := Option.some.inj (rank_zero.symm.trans ha)
  cases hg : growth.isNaN with
  | true =>
    have hnan : growth = .nan := by
      cases growth with
      | nan => rfl
      | _ => cases hg
    rw [hnan, bounded_nan]
    exact ⟨0, c, rank_zero, hc, le_rfl, hac⟩
  | false =>
    obtain ⟨g, hg⟩ := exists_rank hg
    exact ⟨_, c, rank_max rank_zero (rank_min hg hc), hc, le_max_left _ _,
      max_le hac (min_le_right _ _)⟩

theorem bounded_bounds (hl : zero ≤ longest) (growth : Binary64) :
    zero ≤ bounded longest growth ∧ bounded longest growth ≤ longest := by
  obtain ⟨b, c, hb, hc, h0, hbc⟩ := exists_rank_bounded hl growth
  exact ⟨(le_iff_of_rank rank_zero hb).2 h0, (le_iff_of_rank hb hc).2 hbc⟩

theorem bounded_mono (hl : zero ≤ longest) (h : growth ≤ growth') :
    bounded longest growth ≤ bounded longest growth' := by
  obtain ⟨a, c, ha, hc, -⟩ := exists_rank_of_le hl
  obtain ⟨g, g', hg, hg', hle⟩ := exists_rank_of_le h
  rw [bounded, bounded,
    le_iff_of_rank (rank_max ha (rank_min hg hc)) (rank_max ha (rank_min hg' hc))]
  exact max_le_max_left _ (min_le_min_right _ hle)

theorem bounded_le_bounded_longest (hl : zero ≤ longest) (growth : Binary64) :
    bounded longest growth ≤ bounded longest longest := by
  obtain ⟨b, c, hb, hc, h0, hbc⟩ := exists_rank_bounded hl growth
  rw [show bounded longest longest = zero.max (longest.min longest) from rfl,
    le_iff_of_rank hb (rank_max rank_zero (rank_min hc hc)), min_self]
  exact hbc.trans (le_max_right _ _)

theorem delay_eq_bounded (p : Policy) (fraction : Binary64) (n : Nat) :
    p.delay fraction n = bounded p.maxSeconds (p.growth fraction n) := rfl

theorem Numeric.jitter (h : p.Numeric) (hf : zero ≤ fraction) :
    p.jitter fraction = .nan ∨ zero ≤ p.jitter fraction := by
  have hspread : zero ≤ p.jitterSeconds - zero :=
    add_nonneg h.jitterSeconds (show zero ≤ -zero by decide +kernel)
  rcases mul_nonneg hspread hf with hnan | hpos
  · refine .inl ?_
    rw [Policy.jitter, hnan]
    rfl
  · exact .inr (add_nonneg (by decide +kernel) hpos)

theorem Numeric.growth_mono (h : p.Numeric) (hf : zero ≤ fraction) (hn : n ≤ m) (hm : m ≤ 1024) :
    p.growth fraction n = .nan ∨ p.growth fraction n ≤ p.growth fraction m := by
  rw [growth, growth, if_pos (hn.trans hm), if_pos hm]
  rcases h.jitter hf with hnan | hpos
  · refine .inl ?_
    rw [hnan]
    cases p.minSeconds * ofInt (2 ^ (n - 1)) <;> rfl
  · refine .inr (add_le_add_right (zero_le_mul_two_pow h.minSeconds (by omega)) hpos ?_)
    exact mul_two_pow_le h.minSeconds (by omega) (by omega)

theorem Numeric.delay_bounds (h : p.Numeric) (fraction : Binary64) (n : Nat) :
    zero ≤ p.delay fraction n ∧ p.delay fraction n ≤ p.maxSeconds :=
  bounded_bounds h.maxSeconds _

theorem Numeric.delay_mono (h : p.Numeric) (hf : zero ≤ fraction) (hn : n ≤ m) :
    p.delay fraction n ≤ p.delay fraction m := by
  rw [delay_eq_bounded, delay_eq_bounded]
  by_cases hm : m ≤ 1024
  · rcases h.growth_mono hf hn hm with hnan | hle
    · rw [hnan, bounded_nan]
      exact (bounded_bounds h.maxSeconds _).1
    · exact bounded_mono h.maxSeconds hle
  · rw [show p.growth fraction m = p.maxSeconds from if_neg hm]
    exact bounded_le_bounded_longest h.maxSeconds _

end KeyedBreaker.Retry.Policy
