import KeyedBreaker.Proofs.Calendar.Date
import KeyedBreaker.Record.Text

namespace KeyedBreaker

/-- What may follow a time of day without being taken for a part of it. -/
def EndsClock (rest : List Char) : Prop :=
  ∀ c ∈ rest.head?, c.isDigit = false ∧ c ≠ '.' ∧ c ≠ ','

namespace Offset

theorem read?_written (o : Offset) : read? o.written = some (some o) := by
  have hmin := o.minutes_lt
  have hh : o.minutes.natAbs / 60 < 10 ^ 2 := by omega
  have hm : o.minutes.natAbs % 60 < 10 ^ 2 := by omega
  have hcolon : ((':' :: paddedDigits 2 (o.minutes.natAbs % 60) ++ []).head? = some ':') = True := by
    simp
  obtain ⟨d, ds, hds⟩ : ∃ d ds, paddedDigits 2 (o.minutes.natAbs / 60) ++
      ':' :: paddedDigits 2 (o.minutes.natAbs % 60) = d :: ds := ⟨_, _, by rw [paddedDigits_succ]; rfl⟩
  have hr := fixedDigits_paddedDigits_of_lt hm []
  rw [List.append_nil] at hr
  have hl := fixedDigits_paddedDigits_of_lt hh (':' :: paddedDigits 2 (o.minutes.natAbs % 60))
  rw [hds] at hl
  have hp (west : Bool) (h : o.minutes = if west then -(o.minutes.natAbs : Int) else o.minutes.natAbs) :
      ofParts? west (o.minutes.natAbs / 60) (o.minutes.natAbs % 60) = some o := by
    rw [ofParts?, dif_pos (by omega)]
    congr 1
    rcases o with ⟨minutes, hlt⟩
    simp only [Offset.mk.injEq, Nat.div_add_mod]
    exact h.symm
  rw [written, hds]
  by_cases hneg : o.minutes < 0
  · have hw := hp true (by rw [if_pos rfl]; omega)
    simp [read?, hneg, hl, hr, hw]
  · have hw := hp false (by rw [if_neg Bool.false_ne_true]; omega)
    simp [read?, hneg, hl, hr, hw]

theorem eq_zero_of_minutes {o : Offset} (h : o.minutes = 0) : o = zero := by
  cases o
  simpa [zero] using h

end Offset

namespace Instant

theorem fractionMicros_paddedDigits {n : Nat} (hn : n < 10 ^ 6) :
    fractionMicros (paddedDigits 6 n) = n := by
  rw [fractionMicros, List.take_of_length_le (by rw [length_paddedDigits]), length_paddedDigits,
    ofDigits_paddedDigits hn, Nat.sub_self, pow_zero, Nat.mul_one]

theorem readSeconds_written {s f : Nat} (hs : s < 60) (hf : f < 10 ^ 6) (rest : List Char)
    (hrest : EndsClock rest) :
    readSeconds (':' :: (paddedDigits 2 s ++
      ((if f = 0 then [] else '.' :: paddedDigits 6 f) ++ rest))) = some (s * 10 ^ 6 + f, rest) := by
  have hs' : ¬ 60 ≤ s := by omega
  rw [readSeconds, fixedDigits_paddedDigits_of_lt (by omega)]
  simp only [Option.bind_eq_bind, Option.bind_some, if_neg hs']
  by_cases h0 : f = 0
  · simp only [h0, if_true, List.nil_append, Nat.add_zero]
    cases rest with
    | nil => rfl
    | cons c rest =>
      obtain ⟨_, hd, hc⟩ := hrest c rfl
      simp [hd, hc]
  · have hdigits : ∀ c ∈ paddedDigits 6 f, c.isDigit = true := isDigit_of_mem_paddedDigits 6 f
    have htake : (paddedDigits 6 f ++ rest).takeWhile Char.isDigit = paddedDigits 6 f := by
      rw [List.takeWhile_append_of_pos hdigits]
      cases rest with
      | nil => simp
      | cons c rest => simp [(hrest c rfl).1]
    have hdrop : (paddedDigits 6 f ++ rest).dropWhile Char.isDigit = rest := by
      rw [List.dropWhile_append_of_pos hdigits]
      cases rest with
      | nil => simp
      | cons c rest => simp [(hrest c rfl).1]
    have hne : (paddedDigits 6 f).isEmpty = false := by
      rw [paddedDigits_succ]
      rfl
    simp [h0, htake, hdrop, hne, fractionMicros_paddedDigits hf]

theorem readClock_written {m : Nat} (hm : m < 86400 * 10 ^ 6) (rest : List Char)
    (hrest : EndsClock rest) : readClock (clockWritten m ++ rest) = some (m, rest) := by
  have hw : clockWritten m ++ rest = paddedDigits 2 (m / 10 ^ 6 / 3600) ++
      (':' :: (paddedDigits 2 (m / 10 ^ 6 / 60 % 60) ++
        (':' :: (paddedDigits 2 (m / 10 ^ 6 % 60) ++
          ((if m % 10 ^ 6 = 0 then [] else '.' :: paddedDigits 6 (m % 10 ^ 6)) ++ rest))))) := by
    simp [clockWritten]
  have hs := readSeconds_written (Nat.mod_lt (m / 10 ^ 6) (show 0 < 60 by decide))
    (Nat.mod_lt m (show 0 < 10 ^ 6 by decide)) rest hrest
  rw [hw, readClock, fixedDigits_paddedDigits_of_lt (by omega)]
  simp only [Option.bind_eq_bind, Option.bind_some, expect, decide_true, if_true,
    fixedDigits_paddedDigits_of_lt (show m / 10 ^ 6 / 60 % 60 < 10 ^ 2 by omega), hs]
  rw [if_pos (by omega)]
  congr 2
  omega

def offsetWritten (t : Instant) : List Char :=
  match t.offset with
  | none => []
  | some o => if o.minutes = 0 then ['Z'] else o.written

theorem read?_offsetWritten (t : Instant) : Offset.read? t.offsetWritten = some t.offset := by
  unfold offsetWritten
  cases h : t.offset with
  | none => rfl
  | some o =>
    by_cases h0 : o.minutes = 0
    · simp only [h0, if_true]
      rw [Offset.eq_zero_of_minutes h0]
      rfl
    · simp only [h0, if_false]
      exact Offset.read?_written o

theorem endsClock_offsetWritten (t : Instant) : EndsClock t.offsetWritten := by
  unfold offsetWritten EndsClock
  cases t.offset with
  | none => simp
  | some o =>
    dsimp only
    split
    · simp
    · simp only [Offset.written, List.head?_cons, Option.mem_def, Option.some.injEq,
        forall_eq']
      split <;> decide

theorem ofWall?_wall (t : Instant) : ofWall? (t.wall : Int) t.offset = some t := by
  have h := t.wall_lt
  rw [ofWall?, dif_pos (by simpa using h), if_pos (Int.natCast_nonneg _)]
  rfl

theorem ofCalendarText?_of_parts {cs rest tail : List Char} {date : Date} {c : Char} {micros : Nat}
    {offset : Option Offset} (hdate : Date.read cs = some (date, c :: rest))
    (hc : isSeparator c = true) (hclock : readClock rest = some (micros, tail))
    (hoffset : Offset.read? tail = some offset) :
    ofCalendarText? cs =
      ofWall? ((date.dayNumber * (86400 * 10 ^ 6) : Nat) + micros : Int) offset := by
  have hsep : expect isSeparator (c :: rest) = some rest := if_pos hc
  rw [ofCalendarText?, hdate]
  change ((expect isSeparator (c :: rest)).bind fun x => (readClock x).bind fun y =>
    (Offset.read? y.2).bind fun z =>
      ofWall? ((date.dayNumber * (86400 * 10 ^ 6) : Nat) + y.1 : Int) z) = _
  rw [hsep, Option.bind_some, hclock, Option.bind_some, hoffset, Option.bind_some]

theorem written_eq (t : Instant) :
    t.written ['Z'] = (Date.ofDayNumber (t.wall / (86400 * 10 ^ 6))).written ++
      ('T' :: (clockWritten (t.wall % (86400 * 10 ^ 6)) ++ t.offsetWritten)) := by
  cases h : t.offset <;> simp only [written, offsetWritten, h, List.append_assoc, List.cons_append]

theorem ofCalendarText?_written (t : Instant) : ofCalendarText? (t.written ['Z']) = some t := by
  have hday : t.wall / (86400 * 10 ^ 6) < Date.dayCount :=
    (Nat.div_lt_iff_lt_mul (by decide)).mpr t.wall_lt
  have hclock := readClock_written (Nat.mod_lt t.wall (show 0 < 86400 * 10 ^ 6 by decide))
    t.offsetWritten t.endsClock_offsetWritten
  have hdate := Date.read_written (Date.valid_ofDayNumber hday)
    ('T' :: (clockWritten (t.wall % (86400 * 10 ^ 6)) ++ t.offsetWritten))
  rw [written_eq, ofCalendarText?_of_parts hdate rfl hclock t.read?_offsetWritten,
    Date.dayNumber_ofDayNumber, ← Nat.cast_add, Nat.div_add_mod', ofWall?_wall]

theorem ofText?_written (t : Instant) : ofText? (String.ofList (t.written ['Z'])) = some t := by
  rw [ofText?, String.toList_ofList, ofCalendarText?_written, Option.some_or]

theorem ofJson?_toJson (t : Option Instant) : ofJson? (toJson t) = some t := by
  cases t with
  | none => rfl
  | some t => rw [toJson, ofJson?, ofText?_written, Option.map_some]

end Instant

end KeyedBreaker
