import KeyedBreaker.Proofs.Breaker.Steady

namespace KeyedBreaker

def Scene.Mild (s : Scene) : Prop :=
  ∀ access f, .raise f ∈ s.faults access → f.isOrdinary = true

def StaysMild (s s' : Scene) : Prop := s.Mild → s'.Mild

theorem staysMild_steady : BreakerSteady StaysMild where
  refl _ := id
  trans h h' := h' ∘ h
  seeing _ _ _ := id
  talking _ _ _ := id
  storing _ _ := id
  meeting s access f fs hf hs b g hg := by
    dsimp only at hg
    split at hg
    · subst b
      exact hs access g (hf ▸ List.mem_cons_of_mem _ hg)
    · exact hs b g hg

namespace Act

variable {α β : Type} {Q : α → Prop} {R : β → Prop}

/-- Where all faults are mild, they stay so, the action does not fail but ordinarily, and its value is as
stated. -/
def Mildly (a : Act α) (Q : α → Prop) : Prop :=
  ∀ s, s.Mild → (a.play s).2.Mild ∧ (∀ f, (a.play s).1 = .error f → f.isOrdinary = true) ∧
    ∀ x, (a.play s).1 = .ok x → Q x

theorem Mildly.bind {a : Act α} {g : α → Act β} (ha : a.Mildly Q)
    (hg : ∀ x, Q x → (g x).Mildly R) : (a >>= g).Mildly R := by
  intro s hs
  obtain ⟨hm, hf, hx⟩ := ha s hs
  rw [play_bind]
  rcases hp : a.play s with ⟨f | x, s'⟩ <;> rw [hp] at hm hf hx
  · refine ⟨hm, fun g hg => ?_, nofun⟩
    cases hg
    exact hf f rfl
  · exact hg x (hx x rfl) s' hm

theorem mildly_pure {x : α} (h : Q x) : (pure x : Act α).Mildly Q := by
  refine fun s hs => ⟨hs, nofun, fun y hy => ?_⟩
  cases hy
  exact h

theorem mildly_throw {f : Failure} (h : f.isOrdinary = true) : (throw f : Act α).Mildly Q := by
  refine fun s hs => ⟨hs, fun g hg => ?_, nofun⟩
  cases hg
  exact h

theorem mildly_get : (get : Act Scene).Mildly fun _ => True :=
  fun _ hs => ⟨hs, nofun, fun _ _ => trivial⟩

theorem mildly_emit (e : Event) : (emit e).Mildly fun _ => True :=
  fun _ hs => ⟨hs, nofun, fun _ _ => trivial⟩

theorem mildly_setStore (st : Store) :
    (modify fun s : Scene => { s with store := st } : Act Unit).Mildly fun _ => True :=
  fun _ hs => ⟨hs, nofun, fun _ _ => trivial⟩

theorem nextFault_mildly (access : Access) :
    (nextFault access).Mildly fun fault => ∀ f, fault = .raise f → f.isOrdinary = true := by
  intro s hs
  have hm := keeps_nextFault staysMild_steady.toAccessSteady access s hs
  refine ⟨hm, ?_⟩
  rw [nextFault, play_get_bind]
  cases hf : s.faults access with
  | nil =>
      refine ⟨fun f h => (by cases h), fun x hx f hf => ?_⟩
      cases hx
      cases hf
  | cons g gs =>
      refine ⟨fun f h => (by cases h), fun x hx f hf => ?_⟩
      cases hx
      subst hf
      exact hs access f (by rw [‹s.faults access = _›]; exact List.mem_cons_self)

theorem meetClient_mildly (access : Access) (key operation : String) :
    (meetClient access key operation).Mildly fun _ => True := by
  refine (nextFault_mildly access).bind fun fault hfault => ?_
  cases fault with
  | raise f =>
      refine mildly_throw ?_
      rw [if_pos (hfault f rfl)]
      rfl
  | pass | stale => exact mildly_pure trivial

theorem fetch_mildly (key : String) : (fetch key).Mildly fun _ => True := by
  refine mildly_get.bind fun s _ => ?_
  split
  · exact mildly_pure trivial
  · refine (mildly_emit _).bind fun _ _ => (meetClient_mildly _ _ _).bind fun _ _ => ?_
    split
    · exact mildly_pure trivial
    · split
      · exact mildly_pure trivial
      · exact mildly_throw rfl

theorem keep_mildly (key : String) (r : Record) : (keep key r).Mildly fun _ => True := by
  refine mildly_get.bind fun s _ => ?_
  split
  · exact mildly_setStore _
  · exact (mildly_emit _).bind fun _ _ => (meetClient_mildly _ _ _).bind fun _ _ =>
      mildly_setStore _

theorem readRecord_mildly (key : String) : (readRecord key).Mildly fun _ => True := by
  refine (mildly_emit _).bind fun _ _ => (nextFault_mildly _).bind fun fault hfault => ?_
  cases fault with
  | raise f => exact mildly_throw (hfault f rfl)
  | pass | stale => exact fetch_mildly key

theorem writeRecord_mildly (key : String) (r : Record) :
    (writeRecord key r).Mildly fun _ => True := by
  refine (mildly_emit _).bind fun _ _ => (nextFault_mildly _).bind fun fault hfault => ?_
  cases fault with
  | raise f => exact mildly_throw (hfault f rfl)
  | stale v => exact mildly_throw rfl
  | pass =>
      refine (fetch_mildly key).bind fun x _ => ?_
      dsimp only
      split
      · exact (keep_mildly key _).bind fun _ _ => mildly_pure trivial
      · exact mildly_throw rfl

end Act

end KeyedBreaker
