import KeyedBreaker.Scene
import Mathlib.Tactic

namespace KeyedBreaker

def Scene.seeing (es : List Event) (s : Scene) : Scene := { s with events := es ++ s.events }

def Scene.Quiet (s : Scene) : Prop := ∀ a, s.faults a = []

namespace Scene

variable (es fs : List Event) (s : Scene)

@[simp] theorem seeing_nil : s.seeing [] = s := rfl

theorem seeing_seeing : (s.seeing es).seeing fs = s.seeing (fs ++ es) := by
  rw [seeing, seeing, seeing, List.append_assoc]

@[simp] theorem seeing_now : (s.seeing es).now = s.now := rfl

@[simp] theorem seeing_monotonic : (s.seeing es).monotonic = s.monotonic := rfl

@[simp] theorem seeing_store : (s.seeing es).store = s.store := rfl

@[simp] theorem seeing_faults : (s.seeing es).faults = s.faults := rfl

@[simp] theorem seeing_events : (s.seeing es).events = es ++ s.events := rfl

end Scene

namespace Act

variable {α β : Type} (s : Scene)

@[simp] theorem play_pure (x : α) : (pure x : Act α).play s = (.ok x, s) := rfl

@[simp] theorem play_throw (f : Failure) : (throw f : Act α).play s = (.error f, s) := rfl

theorem play_bind (a : Act α) (g : α → Act β) :
    (a >>= g).play s =
      match a.play s with
      | (.ok x, s') => (g x).play s'
      | (.error f, s') => (.error f, s') := by
  change (a.andThen g).play s = _
  induction a generalizing s with
  | done result => cases result <;> rfl
  | look next ih => exact ih s s
  | change f next ih => exact ih (f s)
  | say e next ih => exact ih { s with events := e :: s.events }
  | clock next ih => exact ih s.now s
  | await next ih => exact ih (.ok ()) s

instance : LawfulMonad Act := .mk' Act
  (fun a => by
    change a.andThen (fun x => .done (.ok x)) = a
    induction a with
    | done result => cases result <;> rfl
    | look next ih => exact congrArg Act.look (funext ih)
    | change f next ih => exact congrArg (Act.change f) ih
    | say e next ih => exact congrArg (Act.say e) ih
    | clock next ih => exact congrArg Act.clock (funext ih)
    | await next ih => exact congrArg Act.await (funext ih))
  (fun _ _ => rfl)
  (fun a g h => by
    change (a.andThen g).andThen h = a.andThen fun x => (g x).andThen h
    induction a with
    | done result => cases result <;> rfl
    | look next ih => exact congrArg Act.look (funext ih)
    | change f next ih => exact congrArg (Act.change f) ih
    | say e next ih => exact congrArg (Act.say e) ih
    | clock next ih => exact congrArg Act.clock (funext ih)
    | await next ih => exact congrArg Act.await (funext ih))

theorem play_bind_ok {a : Act α} {x : α} {s' : Scene} (h : a.play s = (.ok x, s'))
    (g : α → Act β) : (a >>= g).play s = (g x).play s' := by
  rw [play_bind, h]

theorem play_bind_error {a : Act α} {f : Failure} {s' : Scene} (h : a.play s = (.error f, s'))
    (g : α → Act β) : (a >>= g).play s = (.error f, s') := by
  rw [play_bind, h]

theorem exists_of_play_bind {a : Act α} {g : α → Act β} {y : β} {s' : Scene}
    (h : (a >>= g).play s = (.ok y, s')) :
    ∃ x s₁, a.play s = (.ok x, s₁) ∧ (g x).play s₁ = (.ok y, s') := by
  rw [play_bind] at h
  rcases hp : a.play s with ⟨f | x, s₁⟩ <;> rw [hp] at h
  · cases h
  · exact ⟨x, s₁, rfl, h⟩

theorem play_map (g : α → β) (a : Act α) :
    (g <$> a).play s = ((a.play s).1.map g, (a.play s).2) := by
  rw [map_eq_pure_bind, play_bind]
  rcases a.play s with ⟨_ | x, s'⟩ <;> rfl

theorem play_discard (a : Act α) :
    (discard a : Act Unit).play s = ((a.play s).1.map fun _ => (), (a.play s).2) :=
  play_map s (fun _ => ()) a

theorem play_tryCatch (a : Act α) (g : Failure → Act α) :
    (tryCatch a g).play s =
      match a.play s with
      | (.ok x, s') => (.ok x, s')
      | (.error f, s') => (g f).play s' := by
  change (a.recover g).play s = _
  induction a generalizing s with
  | done result => cases result <;> rfl
  | look next ih => exact ih s s
  | change f next ih => exact ih (f s)
  | say e next ih => exact ih { s with events := e :: s.events }
  | clock next ih => exact ih s.now s
  | await next ih => exact ih (.ok ()) s

theorem play_tryCatch_ok {a : Act α} {x : α} {s' : Scene} (h : a.play s = (.ok x, s'))
    (g : Failure → Act α) : (tryCatch a g).play s = (.ok x, s') := by
  rw [play_tryCatch, h]

theorem play_tryCatch_error {a : Act α} {f : Failure} {s' : Scene}
    (h : a.play s = (.error f, s')) (g : Failure → Act α) :
    (tryCatch a g).play s = (g f).play s' := by
  rw [play_tryCatch, h]

@[simp] theorem play_get : (get : Act Scene).play s = (.ok s, s) := rfl

@[simp] theorem play_emit (e : Event) : (emit e).play s = (.ok (), s.seeing [e]) := rfl

@[simp] theorem play_now : now.play s = (.ok s.now, s) := rfl

@[simp] theorem play_monotonic : monotonic.play s = (.ok s.monotonic, s) := rfl

@[simp] theorem play_ofExcept (x : Except Failure α) : (ofExcept x : Act α).play s = (x, s) := by
  cases x <;> rfl

@[simp] theorem play_ofTime (x : Except TimeError α) :
    (ofTime x).play s = (x.mapError .time, s) := by
  rw [ofTime, play_ofExcept]

theorem play_observing (a : Act α) :
    (observing a).play s = (.ok (a.play s).1, (a.play s).2) := by
  rw [observing, play_tryCatch, play_bind]
  rcases a.play s with ⟨_ | x, s'⟩ <;> rfl

/-- All that the action does is to let these events be seen, in any scene. -/
def Utters (a : Act α) (x : Except Failure α) (es : List Event) : Prop :=
  ∀ s, a.play s = (x, s.seeing es)

variable {a : Act α} {es fs : List Event}

theorem Utters.bind_ok {x : α} {g : α → Act β} {y : Except Failure β} (ha : a.Utters (.ok x) es)
    (hg : (g x).Utters y fs) : (a >>= g).Utters y (fs ++ es) := by
  intro s
  rw [play_bind_ok s (ha s), hg, Scene.seeing_seeing]

theorem Utters.bind_error {f : Failure} {g : α → Act β} (ha : a.Utters (.error f) es) :
    (a >>= g).Utters (.error f) es := by
  intro s
  rw [play_bind_error s (ha s)]

theorem Utters.tryCatch_ok {x : α} (ha : a.Utters (.ok x) es) (g : Failure → Act α) :
    (tryCatch a g).Utters (.ok x) es := by
  intro s
  rw [play_tryCatch_ok s (ha s)]

theorem Utters.tryCatch_error {f : Failure} {g : Failure → Act α} {y : Except Failure α}
    (ha : a.Utters (.error f) es) (hg : (g f).Utters y fs) :
    (tryCatch a g).Utters y (fs ++ es) := by
  intro s
  rw [play_tryCatch_error s (ha s), hg, Scene.seeing_seeing]

theorem utters_pure (x : α) : (pure x : Act α).Utters (.ok x) [] := fun _ => rfl

theorem utters_throw (f : Failure) : (throw f : Act α).Utters (.error f) [] := fun _ => rfl

theorem utters_emit (e : Event) : (emit e).Utters (.ok ()) [e] := fun _ => rfl

theorem utters_note (speaker : Speaker) (n : Notice) :
    (note speaker n).Utters (.ok ()) [.noted speaker n] := fun _ => rfl

end Act

end KeyedBreaker
