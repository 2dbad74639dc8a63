import KeyedBreaker.Proofs.Calendar.Instant
import KeyedBreaker.Proofs.Json.FlatObject
import KeyedBreaker.Store.Basic

namespace KeyedBreaker

open Json

theorem plain_of_isDigit {c : Char} (hc : c.isDigit = true) : Plain c := by
  simp only [Char.isDigit, Bool.and_eq_true, decide_eq_true_eq, ge_iff_le] at hc
  obtain ⟨hlow, hhigh⟩ := hc
  have hl : '0' ≤ c := hlow
  have hh : c ≤ '9' := hhigh
  refine ⟨?_, ?_, Char.le_trans (by decide) hl, Char.le_trans hh (by decide)⟩
  · rintro rfl
    exact absurd hl (by decide)
  · rintro rfl
    exact absurd hh (by decide)

theorem plain_of_mem_paddedDigits {width n : Nat} {c : Char} (hc : c ∈ paddedDigits width n) :
    Plain c :=
  plain_of_isDigit (isDigit_of_mem_paddedDigits width n c hc)

namespace Instant

theorem plain_of_mem_clockWritten {m : Nat} {c : Char} (hc : c ∈ clockWritten m) : Plain c := by
  have hfraction (h : c ∈ if m % 10 ^ 6 = 0 then [] else '.' :: paddedDigits 6 (m % 10 ^ 6)) :
      Plain c := by
    split at h
    · simp at h
    · rcases List.mem_cons.mp h with rfl | h
      · decide
      · exact plain_of_mem_paddedDigits h
  simp only [clockWritten, List.append_assoc, List.cons_append, List.mem_append, List.mem_cons] at hc
  rcases hc with h | rfl | h | rfl | h | h
  · exact plain_of_mem_paddedDigits h
  · decide
  · exact plain_of_mem_paddedDigits h
  · decide
  · exact plain_of_mem_paddedDigits h
  · exact hfraction h

theorem plain_of_mem_offsetWritten {t : Instant} {c : Char} (hc : c ∈ t.offsetWritten) :
    Plain c := by
  unfold offsetWritten at hc
  split at hc
  · simp at hc
  · split at hc
    · rw [List.mem_singleton.mp hc]
      decide
    · simp only [Offset.written, List.mem_cons, List.mem_append] at hc
      rcases hc with rfl | h | rfl | h
      · split <;> decide
      · exact plain_of_mem_paddedDigits h
      · decide
      · exact plain_of_mem_paddedDigits h

theorem plain_of_mem_written {t : Instant} {c : Char} (hc : c ∈ t.written ['Z']) : Plain c := by
  rw [written_eq] at hc
  simp only [Date.written, List.append_assoc, List.cons_append, List.mem_append, List.mem_cons] at hc
  rcases hc with h | rfl | h | rfl | h | rfl | h | h
  · exact plain_of_mem_paddedDigits h
  · decide
  · exact plain_of_mem_paddedDigits h
  · decide
  · exact plain_of_mem_paddedDigits h
  · decide
  · exact plain_of_mem_clockWritten h
  · exact plain_of_mem_offsetWritten h

theorem scalar_toJson (t : Option Instant) : Scalar (toJson t) := by
  cases t with
  | none => exact .null
  | some t => exact .text fun c hc => plain_of_mem_written (String.toList_ofList ▸ hc)

end Instant

theorem Status.plain_of_mem_name {s : Status} {c : Char} (hc : c ∈ s.name.toList) : Plain c := by
  have hall : ∀ c ∈ s.name.toList, Plain c := by
    refine List.all_iff_forall_prop.1 ?_
    cases s <;> decide
  exact hall c hc

namespace Record

def members (r : Record) : List (String × Json) :=
  [("status", .text r.status.name), ("failure_count", .int r.failureCount),
    ("total_count", .int r.totalCount), ("success_count", .int r.successCount),
    ("close_at", Instant.toJson r.closeAt), ("reset_at", Instant.toJson r.resetAt),
    ("previous_status", (r.previousStatus.map fun s => Json.text s.name).getD .null),
    ("version", .int r.version)]

def memberNames : List String :=
  ["status", "failure_count", "total_count", "success_count", "close_at", "reset_at",
    "previous_status", "version"]

theorem plain_of_mem_memberNames : ∀ name ∈ memberNames, ∀ c ∈ name.toList, Plain c := by
  have hall : (memberNames.all fun name => name.toList.all fun c => decide (Plain c)) = true := by
    decide
  simpa using hall

theorem flatMembers_members (r : Record) : FlatMembers r.members := by
  have hprevious : Scalar ((r.previousStatus.map fun s => Json.text s.name).getD .null) := by
    cases r.previousStatus with
    | none => exact .null
    | some s => exact .text fun c hc => Status.plain_of_mem_name hc
  intro m hm
  refine ⟨plain_of_mem_memberNames m.1 (List.mem_map_of_mem hm), ?_⟩
  simp only [members, List.mem_cons, List.not_mem_nil, or_false] at hm
  rcases hm with rfl | rfl | rfl | rfl | rfl | rfl | rfl | rfl
  · exact .text fun c hc => Status.plain_of_mem_name hc
  · exact .int _
  · exact .int _
  · exact .int _
  · exact Instant.scalar_toJson _
  · exact Instant.scalar_toJson _
  · exact hprevious
  · exact .int _

theorem ofMembers?_members (r : Record) : ofMembers? r.members = some r := by
  have hprevious : Status.optionOfJson?
      ((r.previousStatus.map fun s => Json.text s.name).getD .null) = some r.previousStatus := by
    cases r.previousStatus with
    | none => rfl
    | some s => simp [Status.optionOfJson?, Status.ofJson?, Status.ofName?_name]
  simp [ofMembers?, member, members, member?, Status.ofJson?, Status.ofName?_name, toInt?,
    Instant.ofJson?_toJson, hprevious]

theorem decode?_encode (r : Record) : decode? r.encode = some r := by
  have hread : Json.read? nesting r.encode = some (.object r.members) :=
    read?_object (by decide) r.flatMembers_members (List.cons_ne_nil _ _)
  rw [decode?, hread, Option.bind_some, ofJson?, ofMembers?_members]

end Record

namespace Content

theorem decode?_text_encode (r : Record) : decode? (.text r.encode) = some r := by
  rw [decode?, text?, Option.bind_some, Record.decode?_encode]

theorem text?_encoded_text (s : String) : text? (encoded (.text s)) = some s := by
  have h : s.toUTF8.IsValidUTF8 := s.isValidUTF8
  rw [encoded, text?, String.fromUTF8?, dif_pos h]
  rfl

theorem decode?_encoded_encode (r : Record) : decode? (encoded (.text r.encode)) = some r := by
  rw [decode?, text?_encoded_text, Option.bind_some, Record.decode?_encode]

end Content

end KeyedBreaker
