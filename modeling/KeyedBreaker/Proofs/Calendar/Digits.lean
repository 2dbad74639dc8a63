import KeyedBreaker.Calendar.Reading
import KeyedBreaker.Calendar.Written
import Mathlib.Tactic

namespace KeyedBreaker

theorem digit?_digitChar {n : Nat} (hn : n < 10) : digit? n.digitChar = some n := by
  interval_cases n <;> decide

theorem isDigit_of_mem_paddedDigits (width n : Nat) (c : Char) (hc : c ∈ paddedDigits width n) :
    c.isDigit = true := by
  induction width generalizing n with
  | zero => simp [paddedDigits] at hc
  | succ width ih =>
    rcases List.mem_append.mp hc with hc | hc
    · exact ih (n / 10) hc
    · rw [List.mem_singleton.mp hc]
      simp [Nat.mod_lt]

theorem paddedDigits_succ (width n : Nat) :
    paddedDigits (width + 1) n = (n / 10 ^ width % 10).digitChar :: paddedDigits width n := by
  induction width generalizing n with
  | zero => simp [paddedDigits]
  | succ width ih =>
    have h : n / 10 / 10 ^ width = n / 10 ^ (width + 1) := by
      rw [Nat.div_div_eq_div_mul, pow_succ']
    rw [paddedDigits, ih (n / 10), h, List.cons_append]
    rfl

theorem length_paddedDigits (width n : Nat) : (paddedDigits width n).length = width := by
  induction width generalizing n with
  | zero => rfl
  | succ width ih => simp [paddedDigits, ih]

theorem fixedDigits_paddedDigits (width acc n : Nat) (rest : List Char) :
    fixedDigits width acc (paddedDigits width n ++ rest) =
      some (acc * 10 ^ width + n % 10 ^ width, rest) := by
  induction width generalizing acc with
  | zero => simp [fixedDigits, paddedDigits, Nat.mod_one]
  | succ width ih =>
    have hd : n / 10 ^ width % 10 < 10 := Nat.mod_lt _ (by decide)
    rw [paddedDigits_succ, List.cons_append, fixedDigits, digit?_digitChar hd]
    dsimp only
    rw [ih, Nat.mod_pow_succ, pow_succ]
    congr 2
    ring

theorem fixedDigits_paddedDigits_of_lt {width n : Nat} (hn : n < 10 ^ width) (rest : List Char) :
    fixedDigits width 0 (paddedDigits width n ++ rest) = some (n, rest) := by
  rw [fixedDigits_paddedDigits, Nat.mod_eq_of_lt hn, Nat.zero_mul, Nat.zero_add]

theorem ofDigits_eq_ofDigitChars (cs : List Char) (hcs : ∀ c ∈ cs, c.isDigit = true) :
    ofDigits cs = Nat.ofDigitChars 10 cs 0 := by
  rw [ofDigits, Nat.ofDigitChars_eq_foldl]
  refine List.foldl_ext _ _ _ fun acc c hc => ?_
  rw [digit?, if_pos (hcs c hc), Option.getD_some]

theorem ofDigits_toDigits (n : Nat) : ofDigits (Nat.toDigits 10 n) = n := by
  have h (c : Char) (hc : c ∈ Nat.toDigits 10 n) : c.isDigit = true :=
    Nat.isDigit_of_mem_toDigits (by decide) (by decide) hc
  rw [ofDigits_eq_ofDigitChars _ h, Nat.ofDigitChars_ten_toDigits]

theorem ofDigitChars_paddedDigits (width acc n : Nat) :
    Nat.ofDigitChars 10 (paddedDigits width n) acc = acc * 10 ^ width + n % 10 ^ width := by
  induction width generalizing acc with
  | zero => simp [paddedDigits, Nat.mod_one]
  | succ width ih =>
    have hd : n / 10 ^ width % 10 < 10 := Nat.mod_lt _ (by decide)
    rw [paddedDigits_succ, Nat.ofDigitChars_cons_digitChar_of_lt_ten hd, ih, Nat.mod_pow_succ, pow_succ]
    ring

theorem ofDigits_paddedDigits {width n : Nat} (hn : n < 10 ^ width) :
    ofDigits (paddedDigits width n) = n := by
  rw [ofDigits_eq_ofDigitChars _ (isDigit_of_mem_paddedDigits width n), ofDigitChars_paddedDigits,
    Nat.mod_eq_of_lt hn, Nat.zero_mul, Nat.zero_add]

theorem head?_toDigits {n : Nat} (hn : n ≠ 0) : (Nat.toDigits 10 n).head? ≠ some '0' := by
  induction n using Nat.strong_induction_on with
  | _ n ih =>
    by_cases h : n < 10
    · rw [Nat.toDigits_of_lt_base h]
      simpa using hn
    · have hlead := ih (n / 10) (by omega) (by omega)
      rw [Nat.toDigits_of_base_le (by decide) (by omega),
        List.head?_append_of_ne_nil _ Nat.toDigits_ne_nil]
      exact hlead

end KeyedBreaker
