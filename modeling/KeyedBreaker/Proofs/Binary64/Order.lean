import KeyedBreaker.Binary64.Basic
import Mathlib.Order.WithBot
import Mathlib.Tactic

namespace KeyedBreaker.Binary64

variable {x y z : Binary64} {a b : WithBot (WithTop Int)}

/-- The place of a number in the order, which NaN does not have. -/
def rank : Binary64 → Option (WithBot (WithTop Int))
  | .finite s u _ => some ((signed s u : WithTop Int) : WithBot (WithTop Int))
  | .infinite s => some (if s then ⊥ else ⊤)
  | .nan => none

theorem exists_rank (h : x.isNaN = false) : ∃ a, x.rank = some a := by
  cases x with
  | nan => cases h
  | finite s u hu => exact ⟨_, rfl⟩
  | infinite s => exact ⟨_, rfl⟩

theorem lt_iff_of_rank (hx : x.rank = some a) (hy : y.rank = some b) : x < y ↔ a < b := by
  change x.lt y = true ↔ a < b
  cases x with
  | nan => cases hx
  | finite s u hu =>
    cases hx
    cases y with
    | nan => cases hy
    | finite t v hv =>
      cases hy
      simp [Binary64.lt]
    | infinite t =>
      cases hy
      cases t with
      | true => simp [Binary64.lt]
      | false => simpa [Binary64.lt] using WithBot.coe_lt_coe.2 (WithTop.coe_lt_top (signed s u))
  | infinite s =>
    cases hx
    cases y with
    | nan => cases hy
    | finite t v hv =>
      cases hy
      cases s <;> simp [Binary64.lt]
    | infinite t =>
      cases hy
      cases s <;> cases t <;> simp [Binary64.lt]

theorem le_iff_of_rank (hx : x.rank = some a) (hy : y.rank = some b) : x ≤ y ↔ a ≤ b := by
  change x.le y = true ↔ a ≤ b
  cases x with
  | nan => cases hx
  | finite s u hu =>
    cases hx
    cases y with
    | nan => cases hy
    | finite t v hv =>
      cases hy
      simp [Binary64.le]
    | infinite t =>
      cases hy
      cases t <;> simp [Binary64.le]
  | infinite s =>
    cases hx
    cases y with
    | nan => cases hy
    | finite t v hv =>
      cases hy
      cases s <;> simp [Binary64.le]
    | infinite t =>
      cases hy
      cases s <;> cases t <;> simp [Binary64.le]

theorem exists_rank_of_le (h : x ≤ y) : ∃ a b, x.rank = some a ∧ y.rank = some b ∧ a ≤ b := by
  have hx : x.isNaN = false := by
    cases x with
    | nan => cases h
    | _ => rfl
  have hy : y.isNaN = false := by
    cases y with
    | nan => cases x <;> cases h
    | _ => rfl
  obtain ⟨a, ha⟩ := exists_rank hx
  obtain ⟨b, hb⟩ := exists_rank hy
  exact ⟨a, b, ha, hb, (le_iff_of_rank ha hb).1 h⟩

theorem exists_rank_of_lt (h : x < y) : ∃ a b, x.rank = some a ∧ y.rank = some b ∧ a < b := by
  have hx : x.isNaN = false := by
    cases x with
    | nan => cases h
    | _ => rfl
  have hy : y.isNaN = false := by
    cases y with
    | nan => cases x <;> cases h
    | _ => rfl
  obtain ⟨a, ha⟩ := exists_rank hx
  obtain ⟨b, hb⟩ := exists_rank hy
  exact ⟨a, b, ha, hb, (lt_iff_of_rank ha hb).1 h⟩

theorem le_trans (h : x ≤ y) (h' : y ≤ z) : x ≤ z := by
  obtain ⟨a, b, ha, hb, hab⟩ := exists_rank_of_le h
  obtain ⟨b', c, hb', hc, hbc⟩ := exists_rank_of_le h'
  obtain rfl : b = b' := Option.some.inj (hb.symm.trans hb')
  exact (le_iff_of_rank ha hc).2 (hab.trans hbc)

theorem lt_of_le_of_lt (h : x ≤ y) (h' : y < z) : x < z := by
  obtain ⟨a, b, ha, hb, hab⟩ := exists_rank_of_le h
  obtain ⟨b', c, hb', hc, hbc⟩ := exists_rank_of_lt h'
  obtain rfl : b = b' := Option.some.inj (hb.symm.trans hb')
  exact (lt_iff_of_rank ha hc).2 (hab.trans_lt hbc)

theorem le_of_lt (h : x < y) : x ≤ y := by
  obtain ⟨a, b, ha, hb, hab⟩ := exists_rank_of_lt h
  exact (le_iff_of_rank ha hb).2 hab.le

theorem not_lt_of_le (h : x ≤ y) : ¬ y < x := by
  obtain ⟨a, b, ha, hb, hab⟩ := exists_rank_of_le h
  rw [lt_iff_of_rank hb ha]
  exact not_lt.2 hab

theorem le_of_not_lt (hx : x.isNaN = false) (hy : y.isNaN = false) (h : ¬ y < x) : x ≤ y := by
  obtain ⟨a, ha⟩ := exists_rank hx
  obtain ⟨b, hb⟩ := exists_rank hy
  rw [lt_iff_of_rank hb ha, not_lt] at h
  exact (le_iff_of_rank ha hb).2 h

theorem rank_max (hx : x.rank = some a) (hy : y.rank = some b) : (x.max y).rank = some (max a b) := by
  rw [Binary64.max]
  split
  · next h => rw [hy, max_eq_right ((lt_iff_of_rank hx hy).1 h).le]
  · next h =>
    rw [lt_iff_of_rank hx hy, not_lt] at h
    rw [hx, max_eq_left h]

theorem rank_min (hx : x.rank = some a) (hy : y.rank = some b) : (x.min y).rank = some (min a b) := by
  rw [Binary64.min]
  split
  · next h => rw [hy, min_eq_right ((lt_iff_of_rank hy hx).1 h).le]
  · next h =>
    rw [lt_iff_of_rank hy hx, not_lt] at h
    rw [hx, min_eq_left h]

end KeyedBreaker.Binary64
