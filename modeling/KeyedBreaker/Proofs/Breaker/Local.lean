import KeyedBreaker.Proofs.Breaker.Likeness

namespace KeyedBreaker

namespace Store

theorem lookup_eq_history {s : Store} (h : s.hasLocks = true) (key : String) :
    s.lookup key = .ok (s.history key).head?.join := by
  cases s with
  | shared => cases h
  | memory writes =>
      rw [history_memory, lookup, lookup_eq_head?_filter, List.head?_map, List.head?_map]
      cases (writes.filter (·.1 = key)).head? <;> rfl

end Store

/-- The scenes agree on the clocks and on everything that was ever written under a key. Both stores have
locks, and no faults are laid. -/
structure Scene.Agree (key : String) (s τ : Scene) : Prop where
  now : τ.now = s.now
  monotonic : τ.monotonic = s.monotonic
  history : τ.store.history key = s.store.history key
  quiet : s.Quiet ∧ τ.Quiet
  hasLocks : s.store.hasLocks = true ∧ τ.store.hasLocks = true

theorem Scene.Agree.lookup {key : String} {s τ : Scene} (h : s.Agree key τ) :
    τ.store.lookup key = s.store.lookup key := by
  rw [Store.lookup_eq_history h.hasLocks.1, Store.lookup_eq_history h.hasLocks.2, h.history]

theorem agree_seeing {key : String} {s τ : Scene} (h : s.Agree key τ) (es fs : List Event) :
    (s.seeing es).Agree key (τ.seeing fs) := ⟨h.now, h.monotonic, h.history, h.quiet, h.hasLocks⟩

open Act

theorem agree_readRecord (key : String) : (readRecord key).Respects (Scene.Agree key) := by
  intro s τ h
  rw [play_readRecord key h.quiet.1, play_readRecord key h.quiet.2]
  exact ⟨h.lookup, agree_seeing h _ _⟩

theorem agree_writeRecord (key : String) (r : Record) :
    (writeRecord key r).Respects (Scene.Agree key) := by
  intro s τ h
  obtain ⟨x, hx⟩ : ∃ x, s.store.lookup key = .ok x := ⟨_, Store.lookup_eq_history h.hasLocks.1 key⟩
  have hx' := h.lookup.trans hx
  by_cases hv : r.version = Record.versionOf x
  · rw [play_writeRecord h.quiet.1 hx hv, play_writeRecord h.quiet.2 hx' hv]
    have hkept : (s.keeping key r.next).Agree key (τ.keeping key r.next) := by
      refine ⟨h.now, h.monotonic, ?_, h.quiet, ?_⟩
      · simp only [Scene.keeping, Store.history_kept, h.history]
      · simp only [Scene.keeping, Store.hasLocks_kept]
        exact h.hasLocks
    exact ⟨rfl, agree_seeing hkept _ _⟩
  · rw [play_writeRecord_stale h.quiet.1 hx hv, play_writeRecord_stale h.quiet.2 hx' hv]
    exact ⟨rfl, agree_seeing h _ _⟩

/-- In scenes that agree on a key breakers come to the same. -/
theorem agree_likeness (key : String) : Likeness key (Scene.Agree key) where
  now h := h.now
  monotonic h := h.monotonic
  setNow h _ := ⟨rfl, h.monotonic, h.history, h.quiet, h.hasLocks⟩
  setMonotonic h _ := ⟨h.now, rfl, h.history, h.quiet, h.hasLocks⟩
  seeing h es := agree_seeing h es es
  read := agree_readRecord key
  write := agree_writeRecord key

end KeyedBreaker
