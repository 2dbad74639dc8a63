import KeyedBreaker.Proofs.Record.RoundTrip
import KeyedBreaker.Store.Basic

namespace KeyedBreaker

namespace Content

theorem text?_encoded (c : Content) : c.encoded.text? = c.text? := by
  cases c with
  | text s => exact text?_encoded_text s
  | bytes b => rfl

theorem decode?_encoded (c : Content) : c.encoded.decode? = c.decode? := by
  rw [decode?, decode?, text?_encoded]

end Content

/-- The version that a write must carry. -/
def Record.versionOf (x : Option Record) : Int := (x.map (·.version)).getD 0

/-- The record as it is stored over one of its own version. -/
def Record.next (r : Record) : Record := { r with version := r.version + 1 }

namespace Store

variable (s : Store) {key other : String} (r : Record)

def answer (key : String) : Option Content → Except Failure (Option Record)
  | none => .ok none
  | some content =>
    match content.decode? with
    | some r => .ok (some r)
    | none => .error (.store key "get" "undecodable record" (some .undecodable))

/-- What a read of a key answers that meets no fault. -/
def lookup (s : Store) (key : String) : Except Failure (Option Record) :=
  match s with
  | .memory writes => .ok (writes.lookup key)
  | .shared keyPrefix client => answer key (client.get? (keyPrefix ++ key))

def kept (s : Store) (key : String) (r : Record) : Store :=
  match s with
  | .memory writes => .memory ((key, r) :: writes)
  | .shared keyPrefix client =>
    .shared keyPrefix (client.write (keyPrefix ++ key) (some (.text r.encode)))

def writes : Store → List (String × Option Record)
  | .memory writes => writes.map fun w => (w.1, some w.2)
  | .shared _ client => client.writes.map fun w => (w.1, w.2.bind Content.decode?)

/-- Everything that was ever written under a key, latest first. -/
def history (s : Store) (key : String) : List (Option Record) :=
  (s.writes.filter (·.1 = s.nameOf key)).map (·.2)

theorem nameOf_eq_iff : s.nameOf key = s.nameOf other ↔ key = other := by
  cases s with
  | memory writes => exact Iff.rfl
  | shared keyPrefix client =>
      refine ⟨fun h => ?_, congrArg _⟩
      have h' := congrArg String.toList h
      rw [nameOf, nameOf, String.toList_append, String.toList_append] at h'
      exact String.toList_injective (List.append_cancel_left h')

@[simp] theorem nameOf_kept (name : String) : (s.kept key r).nameOf name = s.nameOf name := by
  cases s <;> rfl

@[simp] theorem hasLocks_kept : (s.kept key r).hasLocks = s.hasLocks := by cases s <;> rfl

theorem writes_kept : (s.kept key r).writes = (s.nameOf key, some r) :: s.writes := by
  cases s with
  | memory writes => rfl
  | shared keyPrefix client =>
      rw [kept, Client.write, writes, List.map_cons, Option.bind_some,
        Content.decode?_text_encode]
      rfl

@[simp] theorem history_kept : (s.kept key r).history key = some r :: s.history key := by
  simp [history, writes_kept]

theorem history_kept_of_ne (h : other ≠ key) :
    (s.kept key r).history other = s.history other := by
  have hn : s.nameOf key ≠ s.nameOf other := fun he => h ((s.nameOf_eq_iff.1 he).symm)
  simp [history, writes_kept, hn]

@[simp] theorem lookup_kept : (s.kept key r).lookup key = .ok (some r) := by
  cases s with
  | memory writes => simp [kept, lookup]
  | shared keyPrefix client =>
      cases hb : client.answersBytes <;>
        simp [kept, lookup, Client.write, Client.get?, Client.content?, hb, answer,
          Content.decode?_encoded_encode, Content.decode?_text_encode]

theorem lookup_kept_of_ne (h : other ≠ key) : (s.kept key r).lookup other = s.lookup other := by
  have hn : (s.nameOf other == s.nameOf key) = false :=
    beq_false_of_ne fun he => h (s.nameOf_eq_iff.1 he)
  cases s with
  | memory writes =>
      rw [kept, lookup, List.lookup_cons, show (other == key) = false from hn]
      rfl
  | shared keyPrefix client =>
      have hc : (client.write (keyPrefix ++ key) (some (.text r.encode))).content?
          (keyPrefix ++ other) = client.content? (keyPrefix ++ other) := by
        rw [Client.content?, Client.write, List.lookup_cons,
          show (keyPrefix ++ other == keyPrefix ++ key) = false from hn]
        rfl
      rw [kept, lookup, lookup, Client.get?, hc]
      rfl

theorem answer_map_encoded (x : Option Content) :
    answer key (x.map Content.encoded) = answer key x := by
  cases x with
  | none => rfl
  | some c => rw [Option.map_some, answer, answer, Content.decode?_encoded]

theorem lookup_shared (keyPrefix : String) (client : Client) :
    (shared keyPrefix client).lookup key = answer key (client.content? (keyPrefix ++ key)) := by
  rw [lookup, Client.get?]
  split
  · exact answer_map_encoded _
  · rfl

/-- A key cannot be read when the client has content for it that is no text of a record. -/
theorem lookup_eq_error_iff {f : Failure} : s.lookup key = .error f ↔
    ∃ keyPrefix client content, s = .shared keyPrefix client ∧
      client.content? (keyPrefix ++ key) = some content ∧ content.decode? = none ∧
      f = .store key "get" "undecodable record" (some .undecodable) := by
  cases s with
  | memory writes => simp [lookup]
  | shared keyPrefix client =>
      rw [lookup_shared]
      cases hc : client.content? (keyPrefix ++ key) with
      | none => simp [answer, hc]
      | some content =>
          cases hd : content.decode? with
          | some r => simp [answer, hc, hd]
          | none => simp [answer, hc, hd, eq_comm]

theorem lookup_eq_head?_filter {α : Type} (name : String) (l : List (String × α)) :
    l.lookup name = ((l.filter (·.1 = name)).map (·.2)).head? := by
  induction l with
  | nil => rfl
  | cons w l ih =>
      obtain ⟨n, x⟩ := w
      by_cases h : n = name
      · simp [h]
      · have hb : (name == n) = false := beq_false_of_ne (Ne.symm h)
        rw [List.lookup_cons, hb, List.filter_cons_of_neg (by simpa using h), ← ih]

theorem history_memory (ws : List (String × Record)) :
    (memory ws).history key = ((ws.filter (·.1 = key)).map fun w => some w.2) := by
  simp only [history, writes, nameOf, List.filter_map, List.map_map]
  rfl

theorem history_shared (keyPrefix : String) (client : Client) :
    (shared keyPrefix client).history key =
      ((client.writes.filter (·.1 = keyPrefix ++ key)).map fun w => w.2.bind Content.decode?) := by
  simp only [history, writes, nameOf, List.filter_map, List.map_map]
  rfl

theorem lookup_of_history_nil (h : s.history key = []) : s.lookup key = .ok none := by
  cases s with
  | memory ws =>
      rw [history_memory, List.map_eq_nil_iff] at h
      rw [lookup, lookup_eq_head?_filter, h]
      rfl
  | shared keyPrefix client =>
      rw [history_shared, List.map_eq_nil_iff] at h
      rw [lookup_shared, Client.content?, lookup_eq_head?_filter, h]
      rfl

theorem lookup_of_history_cons {l : List (Option Record)} (h : s.history key = some r :: l) :
    s.lookup key = .ok (some r) := by
  cases s with
  | memory ws =>
      rw [history_memory] at h
      obtain ⟨w, rest, hw, hr, -⟩ := List.map_eq_cons_iff.1 h
      rw [lookup, lookup_eq_head?_filter, hw, List.map_cons, List.head?_cons, hr]
  | shared keyPrefix client =>
      rw [history_shared] at h
      obtain ⟨w, rest, hw, hr, -⟩ := List.map_eq_cons_iff.1 h
      obtain ⟨content, hc, hd⟩ := Option.bind_eq_some_iff.1 hr
      rw [lookup_shared, Client.content?, lookup_eq_head?_filter, hw, List.map_cons,
        List.head?_cons, hc, Option.join_some, answer, hd]

theorem mem_history_of_lookup {s : Store} {r : Record} (h : s.lookup key = .ok (some r)) :
    some r ∈ s.history key := by
  cases hs : s.history key with
  | nil => rw [lookup_of_history_nil s hs] at h; cases h
  | cons x l =>
      cases x with
      | some r' =>
          rw [lookup_of_history_cons s r' hs] at h
          cases h
          exact List.mem_cons_self
      | none =>
          exfalso
          cases s with
          | memory ws =>
              rw [history_memory] at hs
              obtain ⟨w, rest, -, hr, -⟩ := List.map_eq_cons_iff.1 hs
              cases hr
          | shared keyPrefix client =>
              rw [history_shared] at hs
              obtain ⟨w, rest, hw, hr, -⟩ := List.map_eq_cons_iff.1 hs
              rw [lookup_shared, Client.content?, lookup_eq_head?_filter, hw, List.map_cons,
                List.head?_cons, Option.join_some] at h
              cases hc : w.2 with
              | none => rw [hc] at h; cases h
              | some content =>
                  rw [hc, Option.bind_some] at hr
                  rw [hc, answer, hr] at h
                  cases h

theorem mem_writes_of_lookup {s : Store} {r : Record} (h : s.lookup key = .ok (some r)) :
    (s.nameOf key, some r) ∈ s.writes := by
  obtain ⟨w, hw, hr⟩ := List.mem_map.1 (mem_history_of_lookup h)
  obtain ⟨hw, hn⟩ := List.mem_filter.1 hw
  rw [← of_decide_eq_true hn, ← hr]
  exact hw

end Store

end KeyedBreaker
