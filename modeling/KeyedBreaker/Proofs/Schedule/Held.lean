import KeyedBreaker.Proofs.Schedule.Mutex

namespace KeyedBreaker

def Place.requested? : Place → Option Operation
  | .requesting op => some op
  | _ => none

theorem head?_append_of_head? {l l' : List Nat} {i : Nat} (h : l.head? = some i) :
    (l ++ l').head? = some i := by
  rw [List.head?_append, h]
  rfl

namespace Shift

variable {i : Nat} {sts : List Stand} {l l' : Line} {st st' : Stand}

theorem head?_of_acting {op : Operation} (h : Shift i sts l st l' st') (hi : l.ready.head? = some i)
    (hop : st'.place = .acting op) : l'.ready.head? = some i := by
  cases h with
  | still | takes => exact hi
  | joins _ hst' => rw [hop] at hst'; cases hst'
  | releases => exact head?_append_of_head? hi
  | leaves | leavesGate | opensGate | cancels => cases hop
  | drops hdrop =>
      rcases hdrop with ⟨hhalted, rfl⟩ | ⟨-, rfl⟩
      · cases hhalted <;> cases hop
      · cases hop

theorem holder (h : Shift i sts l st l' st') (k : String) (hk : (l'.locks k).holder ≠ none) :
    st'.occupies k ≠ 0 ∨ (l.locks k).holder ≠ none ∧ st.occupies k = 0 := by
  -- the lock stays as it was, and so does what the task occupies
  have hsame : (l'.locks k).holder = (l.locks k).holder → st'.occupies k = st.occupies k →
      st'.occupies k ≠ 0 ∨ (l.locks k).holder ≠ none ∧ st.occupies k = 0 := by
    intro hl hocc
    by_cases h0 : st.occupies k = 0
    · exact .inr ⟨hl ▸ hk, h0⟩
    · exact .inl (hocc ▸ h0)
  have hreleased : ∀ key, (l'.locks k).holder = (if k = key then none else (l.locks k).holder) →
      st.occupies k = st'.occupies k + (if key = k then 1 else 0) →
      st'.occupies k ≠ 0 ∨ (l.locks k).holder ≠ none ∧ st.occupies k = 0 := by
    intro key hl hocc
    by_cases hkey : k = key
    · rw [hl, if_pos hkey] at hk
      exact absurd rfl hk
    · refine hsame (by rw [hl, if_neg hkey]) ?_
      rw [hocc, if_neg (Ne.symm hkey)]
      rfl
  cases h with
  | still _ _ hocc => exact hsame rfl (hocc k)
  | @takes st op fs hst =>
      by_cases hkey : k = op.key
      · subst hkey
        exact .inl (Stand.occupies_ne_zero.2 (.inl ⟨op, rfl, rfl⟩))
      · refine hsame ?_ ?_
        · rw [Line.locks_setLock_ne _ hkey]
        · rw [Schedule.occupies_acting, if_neg (Ne.symm hkey)]
          rcases hst with ⟨rfl, -⟩ | ⟨rfl, -⟩ <;> exact (Nat.zero_add _).symm
  | joins _ _ hocc => exact hsame (Line.holder_setQueue _ _ k) (hocc k)
  | @leaves op fs result =>
      refine hsame ?_ rfl
      rw [Line.leave_eq, Line.holder_pass, Line.holder_setQueue]
  | @releases _ _ key _ _ hocc => exact hreleased key (l.holder_unlock key k) (hocc k)
  | @leavesGate gate f fs result =>
      refine hreleased f.key ?_ (Schedule.occupies_cons _ f fs k)
      rw [Line.holder_unlock, Line.holder_setQueue]
  | opensGate => exact hsame rfl rfl
  | @cancels step j spot => exact hsame (Line.holder_setQueue spot _ k) rfl
  | drops hdrop =>
      refine hsame rfl ?_
      rcases hdrop with ⟨-, rfl⟩ | ⟨⟨result, rfl⟩, rfl⟩ <;> rfl

end Shift

namespace Schedule

variable {s s' : Schedule} {i : Nat} {st st' : Stand} {key : String}

theorem mem_running : key ∈ s.running ↔ ∃ st ∈ s.stands, ∃ f ∈ st.frames, f.key = key := by
  simp only [running, List.mem_flatMap, List.mem_map]

/-- It is the turn of a task whose operation has the lock of a key. -/
def ActsFor (key : String) (s : Schedule) : Prop :=
  ∃ i op fs, s.ready.head? = some i ∧ s.stands[i]? = some ⟨.acting op, fs⟩ ∧ op.key = key

/-- A lock is held for a function that is running, or by the operation whose turn it is. -/
def Held (s : Schedule) : Prop :=
  ∀ key, (s.locks key).holder ≠ none → key ∈ s.running ∨ s.ActsFor key

/-- The task whose turn it is starts no operation on a key while a call on the key is in progress. -/
def Apart (s : Schedule) : Prop :=
  ∀ st ∈ s.ready.head?.bind (s.stands[·]?), ∀ op ∈ st.place.requested?, op.key ∉ s.running

instance (s : Schedule) : Decidable s.Apart :=
  inferInstanceAs (Decidable (∀ st ∈ s.ready.head?.bind (s.stands[·]?), ∀ op ∈ st.place.requested?, _))

/-- An operation that starts apart from the calls on its key finds the lock free. -/
theorem Held.free {op : Operation} {fs : List Frame} (h : s.Held) (hapart : s.Apart)
    (hi : s.ready.head? = some i) (hst : s.stands[i]? = some ⟨.requesting op, fs⟩)
    (hqueue : (s.locks op.key).queue = []) : (s.locks op.key).isFree = true := by
  have hnone : (s.locks op.key).holder = none := by
    by_contra hne
    rcases h op.key hne with hrun | ⟨j, op', fs', hj, hst', -⟩
    · refine hapart ⟨.requesting op, fs⟩ ?_ op rfl hrun
      rw [hi]
      exact hst
    · rw [hi] at hj
      cases hj
      rw [hst] at hst'
      cases hst'
  rw [Lock.isFree, hnone, hqueue]
  rfl

theorem Held.of_turn (h : s.Held) (hi : s.ready.head? = some i) (hst : s.stands[i]? = some st)
    (hstands : s'.stands = s.stands.set i st')
    (hacts : ∀ op, st'.place = .acting op → s'.ready.head? = some i)
    (hholder : ∀ k, (s'.locks k).holder ≠ none →
      st'.occupies k ≠ 0 ∨ (s.locks k).holder ≠ none ∧ st.occupies k = 0) : s'.Held := by
  have hlt := (List.getElem?_eq_some_iff.1 hst).1
  have hself : s'.stands[i]? = some st' := by rw [hstands, List.getElem?_set_self hlt]
  intro k hk
  rcases hholder k hk with hocc | ⟨hold, hocc⟩
  · rcases Stand.occupies_ne_zero.1 hocc with ⟨op, hp, rfl⟩ | hf
    · obtain ⟨place, fs⟩ := st'
      obtain rfl : place = .acting op := hp
      exact .inr ⟨i, op, fs, hacts op rfl, hself, rfl⟩
    · exact .inl (mem_running.2 ⟨st', List.mem_of_getElem? hself, hf⟩)
  · rcases h k hold with hrun | ⟨j, op, fs, hj, hst', rfl⟩
    · obtain ⟨st₁, hmem, hf⟩ := mem_running.1 hrun
      obtain ⟨j, hj⟩ := List.getElem?_of_mem hmem
      by_cases hij : i = j
      · subst hij
        rw [hst] at hj
        cases hj
        exact absurd hocc (Stand.occupies_ne_zero.2 (.inr hf))
      · rw [← List.getElem?_set_ne hij, ← hstands] at hj
        exact .inl (mem_running.2 ⟨st₁, List.mem_of_getElem? hj, hf⟩)
    · rw [hi] at hj
      cases hj
      rw [hst] at hst'
      cases hst'
      exact absurd hocc (Stand.occupies_ne_zero.2 (.inl ⟨op, rfl, rfl⟩))

theorem Held.shift (h : s.Held) (hi : s.ready.head? = some i) (hst : s.stands[i]? = some st)
    (hshift : Shift i s.stands s.line st s'.line st') (hstands : s'.stands = s.stands.set i st') :
    s'.Held :=
  h.of_turn hi hst hstands (fun _ => hshift.head?_of_acting hi) hshift.holder

theorem Held.tick (h : s.Held) (hm : s.scene.store.hasLocks = true) : s.tick.Held := by
  obtain ⟨-, htick⟩ | ⟨i, hhead, ⟨hnone, htick⟩ | ⟨t, ht, -⟩⟩ := s.tick_cases
  · rw [htick]
    exact h
  · rw [htick]
    intro key hkey
    rcases h key hkey with hrun | ⟨j, op, fs, hj, hst, -⟩
    · exact .inl hrun
    · obtain ⟨t, ht, -⟩ := task_of_stands hst
      rw [hhead] at hj
      cases hj
      rw [hnone] at ht
      cases ht
  · have hi := stands_of_task ht
    have hknown : ∀ j, s.ready.head? = some j → j < s.stands.length := by
      intro j hj
      rw [hhead] at hj
      cases hj
      exact (List.getElem?_eq_some_iff.1 hi).1
    obtain ⟨-, htick⟩ | ⟨j, st, hj, hst, st', hshift, hstands⟩ := tick_shifts hm hknown
    · rw [htick]
      exact h
    · exact h.shift hj hst hshift hstands

theorem Held.add (h : s.Held) (step : Step) : (s.add step).Held := by
  intro key hkey
  rcases h key hkey with hrun | ⟨i, op, fs, hi, hst, hk⟩
  · obtain ⟨st, hst, hf⟩ := mem_running.1 hrun
    refine .inl (mem_running.2 ⟨st, ?_, hf⟩)
    rw [stands_add]
    exact List.mem_append_left _ hst
  · refine .inr ⟨i, op, fs, head?_append_of_head? hi, ?_, hk⟩
    rw [stands_add, List.getElem?_append_left (List.getElem?_eq_some_iff.1 hst).1]
    exact hst

end Schedule

end KeyedBreaker
