import KeyedBreaker.Proofs.Store.Growth

namespace KeyedBreaker.Store

def Numbered : List (Option Record) → Prop
  | [] => True
  | x :: l => (∃ r, x = some r ∧ r.version = l.length + 1) ∧ Numbered l

theorem Numbered.versions {l : List (Option Record)} (h : Numbered l) :
    l.reverse.map (·.map Record.version) =
      (List.range l.length).map fun n : Nat => some ((n : Int) + 1) := by
  induction l with
  | nil => rfl
  | cons x l ih =>
      obtain ⟨⟨r, rfl, hv⟩, hl⟩ := h
      rw [List.reverse_cons, List.map_append, ih hl, List.length_cons, List.range_succ,
        List.map_append, List.map_singleton, List.map_singleton, Option.map_some, hv]

variable {s s' : Store} {key other : String} {rs : List Record} {x : Option Record}

theorem Numbered.lookup (h : Numbered (s.history key)) :
    ∃ x, s.lookup key = .ok x ∧ Record.versionOf x = (s.history key).length := by
  cases hl : s.history key with
  | nil => exact ⟨none, lookup_of_history_nil s hl, rfl⟩
  | cons x l =>
      rw [hl] at h
      obtain ⟨⟨r, rfl, hv⟩, -⟩ := h
      exact ⟨some r, lookup_of_history_cons s r hl, hv⟩

theorem Numbered.versionOf (h : Numbered (s.history key)) (hx : s.lookup key = .ok x) :
    Record.versionOf x = (s.history key).length := by
  obtain ⟨y, hy, hv⟩ := h.lookup
  rw [hx] at hy
  cases hy
  exact hv

theorem Grows.numbered (hg : s.Grows key rs s') (h : Numbered (s.history key)) :
    Numbered (s'.history key) := by
  induction hg with
  | refl => exact h
  | @keep rs' st' x r hg hx hv ih =>
      rw [history_kept]
      have hlen := ih.versionOf hx
      exact ⟨⟨r.next, rfl, by rw [Record.next, hv, hlen]⟩, ih⟩

theorem Grows.numbered_all (hg : s.Grows key rs s') (h : ∀ other, Numbered (s.history other))
    (other : String) : Numbered (s'.history other) := by
  by_cases hk : other = key
  · subst hk
    exact hg.numbered (h other)
  · rw [hg.history_of_ne hk]
    exact h other

theorem history_of_writes_nil (h : s.writes = []) (key : String) : s.history key = [] := by
  rw [history, h]
  rfl

end KeyedBreaker.Store
