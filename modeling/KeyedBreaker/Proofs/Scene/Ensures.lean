import KeyedBreaker.Proofs.Calendar.Order
import KeyedBreaker.Proofs.Scene.Play

namespace KeyedBreaker

theorem Instant.isSince_iff {t u : Instant} : t.isSince u = true ↔ t.reaches u = .ok true := by
  rw [reaches_eq_true_iff, isSince, Option.any_eq_true]
  simp

/-- The course of an action that others may interrupt, by the places at which whoever takes it can
stand. -/
structure Course (P : Type) where
  /-- What may happen between two places, without a wait on the way. -/
  leads : P → Scene → P → Scene → Prop
  /-- One may wait here for a listener. -/
  waits : P → Prop
  /-- What is certain when one goes on from here. -/
  resumes : P → Scene → Prop
  /-- What listeners may come back with. -/
  answers : Except Failure Unit → Prop

namespace Act

variable {P α β : Type} (C : Course P)

/-- Whatever the clock shows, listeners come back with and others do meanwhile: wherever the action
stops, it has come there from where it last went on, and in the end this holds. The action has begun
in the first scene and has come to the second. -/
def Ensures (Q : Except Failure α → P → Scene → Scene → Prop) : Act α → P → Scene → Scene → Prop
  | .done result, p, s₀, s => Q result p s₀ s
  | .look next, p, s₀, s => (next s).Ensures Q p s₀ s
  | .change f next, p, s₀, s => next.Ensures Q p s₀ (f s)
  | .say e next, p, s₀, s => next.Ensures Q p s₀ (s.seeing [e])
  | .clock next, p, s₀, s =>
    ∀ t, t.reaches s.now = .ok true → (next t).Ensures Q p s₀ { s with now := t }
  | .await next, p, s₀, s =>
    ∃ p', C.waits p' ∧ C.leads p s₀ p' s ∧
      ∀ r s', C.answers r → C.resumes p' s' → (next r).Ensures Q p' s' s'

def Atomic : Act α → Prop
  | .done _ => True
  | .look next => ∀ s, (next s).Atomic
  | .change _ next | .say _ next => next.Atomic
  | .clock _ | .await _ => False

variable {C} {Q Q' : Except Failure α → P → Scene → Scene → Prop} {a : Act α} {p : P}
  {s₀ s : Scene}

def Halt.Ensures (C : Course P) (Q : Except Failure α → P → Scene → Scene → Prop) (p : P)
    (s₀ s : Scene) : Halt α → Prop
  | .ended result => Q result p s₀ s
  | .waiting next => ∃ p', C.waits p' ∧ C.leads p s₀ p' s ∧
      ∀ r s', C.answers r → C.resumes p' s' → (next r).Ensures C Q p' s' s'

theorem Ensures.stretch (h : a.Ensures C Q p s₀ s) {ts : List Instant}
    (hts : a.isForward ts s = true) :
    (a.stretch ts s).1.Ensures C Q p s₀ (a.stretch ts s).2 := by
  induction a generalizing ts s with
  | done result => exact h
  | look next ih => exact ih s h hts
  | change f next ih => exact ih h (Bool.and_eq_true _ _ ▸ hts).2
  | say e next ih => exact ih h hts
  | clock next ih =>
      rw [isForward, Bool.and_eq_true, Instant.isSince_iff] at hts
      exact ih _ (h _ hts.1) hts.2
  | await next ih => exact h

theorem Ensures.mono (h : a.Ensures C Q p s₀ s)
    (hQ : ∀ {r p s₀ s}, Q r p s₀ s → Q' r p s₀ s) : a.Ensures C Q' p s₀ s := by
  induction a generalizing p s₀ s with
  | done result => exact hQ h
  | look next ih => exact ih s h
  | change f next ih => exact ih h
  | say e next ih => exact ih h
  | clock next ih => exact fun t ht => ih t (h t ht)
  | await next ih =>
      obtain ⟨p', hwait, hleads, hnext⟩ := h
      exact ⟨p', hwait, hleads, fun r s' hr hs => ih r (hnext r s' hr hs)⟩

def Followed (C : Course P) (g : α → Act β) (Q : Except Failure β → P → Scene → Scene → Prop) :
    Except Failure α → P → Scene → Scene → Prop
  | .ok x, p, s₀, s => (g x).Ensures C Q p s₀ s
  | .error f, p, s₀, s => Q (.error f) p s₀ s

theorem Ensures.bind {g : α → Act β} {Q : Except Failure β → P → Scene → Scene → Prop}
    (h : a.Ensures C (Followed C g Q) p s₀ s) : (a >>= g).Ensures C Q p s₀ s := by
  change (a.andThen g).Ensures C Q p s₀ s
  induction a generalizing p s₀ s with
  | done result => cases result <;> exact h
  | look next ih => exact ih s h
  | change f next ih => exact ih h
  | say e next ih => exact ih h
  | clock next ih => exact fun t ht => ih t (h t ht)
  | await next ih =>
      obtain ⟨p', hwait, hleads, hnext⟩ := h
      exact ⟨p', hwait, hleads, fun r s' hr hs => ih r (hnext r s' hr hs)⟩

theorem Ensures.map {g : α → β} {Q : Except Failure β → P → Scene → Scene → Prop}
    (h : a.Ensures C (fun r => Q (r.map g)) p s₀ s) : (g <$> a).Ensures C Q p s₀ s := by
  rw [map_eq_pure_bind]
  refine Ensures.bind (h.mono fun {r p s₀ s} hr => ?_)
  cases r <;> exact hr

def Rescued (C : Course P) (g : Failure → Act α) (Q : Except Failure α → P → Scene → Scene → Prop) :
    Except Failure α → P → Scene → Scene → Prop
  | .ok x, p, s₀, s => Q (.ok x) p s₀ s
  | .error f, p, s₀, s => (g f).Ensures C Q p s₀ s

theorem Ensures.tryCatch {g : Failure → Act α} (h : a.Ensures C (Rescued C g Q) p s₀ s) :
    (tryCatch a g).Ensures C Q p s₀ s := by
  change (a.recover g).Ensures C Q p s₀ s
  induction a generalizing p s₀ s with
  | done result => cases result <;> exact h
  | look next ih => exact ih s h
  | change f next ih => exact ih h
  | say e next ih => exact ih h
  | clock next ih => exact fun t ht => ih t (h t ht)
  | await next ih =>
      obtain ⟨p', hwait, hleads, hnext⟩ := h
      exact ⟨p', hwait, hleads, fun r s' hr hs => ih r (hnext r s' hr hs)⟩

theorem Atomic.ensures (ha : a.Atomic) (h : Q (a.play s).1 p s₀ (a.play s).2) :
    a.Ensures C Q p s₀ s := by
  induction a generalizing s with
  | done result => exact h
  | look next ih => exact ih s (ha s) h
  | change f next ih => exact ih ha h
  | say e next ih => exact ih ha h
  | clock next ih => exact ha.elim
  | await next ih => exact ha.elim

theorem Atomic.bind {g : α → Act β} (ha : a.Atomic) (hg : ∀ x, (g x).Atomic) :
    (a >>= g).Atomic := by
  change (a.andThen g).Atomic
  induction a with
  | done result =>
      cases result with
      | ok x => exact hg x
      | error f => trivial
  | look next ih => exact fun s => ih s (ha s)
  | change f next ih => exact ih ha
  | say e next ih => exact ih ha
  | clock next ih => exact ha.elim
  | await next ih => exact ha.elim

theorem Atomic.tryCatch {g : Failure → Act α} (ha : a.Atomic) (hg : ∀ f, (g f).Atomic) :
    (tryCatch a g).Atomic := by
  change (a.recover g).Atomic
  induction a with
  | done result =>
      cases result with
      | ok x => trivial
      | error f => exact hg f
  | look next ih => exact fun s => ih s (ha s)
  | change f next ih => exact ih ha
  | say e next ih => exact ih ha
  | clock next ih => exact ha.elim
  | await next ih => exact ha.elim

theorem atomic_pure (x : α) : (pure x : Act α).Atomic := trivial

theorem atomic_throw (f : Failure) : (throw f : Act α).Atomic := trivial

theorem atomic_emit (e : Event) : (emit e).Atomic := trivial

theorem atomic_get : (get : Act Scene).Atomic := fun _ => trivial

theorem atomic_modify (g : Scene → Scene) : (modify g : Act Unit).Atomic := fun _ => trivial

theorem ensures_now {Q : Except Failure Instant → P → Scene → Scene → Prop}
    (h : ∀ t, t.reaches s.now = .ok true → Q (.ok t) p s₀ { s with now := t }) :
    now.Ensures C Q p s₀ s := h

/-- From a place the action comes to places where this holds of its results. -/
def Takes (C : Course P) (a : Act α) (p : P) (Q : Except Failure α → P → Prop) : Prop :=
  ∀ p₀ s₀ s, C.leads p₀ s₀ p s →
    a.Ensures C (fun r p₀ s₀ s => ∃ p', C.leads p₀ s₀ p' s ∧ Q r p') p₀ s₀ s

theorem Takes.bind {R : Except Failure α → P → Prop} {S : Except Failure β → P → Prop}
    {g : α → Act β} (ha : a.Takes C p R) (hg : ∀ x p', R (.ok x) p' → (g x).Takes C p' S)
    (hf : ∀ f p', R (.error f) p' → S (.error f) p') : (a >>= g).Takes C p S := by
  intro p₀ s₀ s h
  refine Ensures.bind ((ha p₀ s₀ s h).mono ?_)
  rintro (f | x) p₁ s₁ s' ⟨p', hleads, hr⟩
  · exact ⟨p', hleads, hf f p' hr⟩
  · exact hg x p' hr _ _ _ hleads

theorem Takes.tryCatch {R S : Except Failure α → P → Prop} {g : Failure → Act α}
    (ha : a.Takes C p R) (hx : ∀ x p', R (.ok x) p' → S (.ok x) p')
    (hg : ∀ f p', R (.error f) p' → (g f).Takes C p' S) : (tryCatch a g).Takes C p S := by
  intro p₀ s₀ s h
  refine Ensures.tryCatch ((ha p₀ s₀ s h).mono ?_)
  rintro (f | x) p₁ s₁ s' ⟨p', hleads, hr⟩
  · exact hg f p' hr _ _ _ hleads
  · exact ⟨p', hleads, hx x p' hr⟩

theorem Takes.map {R : Except Failure α → P → Prop} {S : Except Failure β → P → Prop} {g : α → β}
    (ha : a.Takes C p R) (h : ∀ r p', R r p' → S (r.map g) p') : (g <$> a).Takes C p S := by
  intro p₀ s₀ s hleads
  exact Ensures.map ((ha p₀ s₀ s hleads).mono fun ⟨p', hp, hr⟩ => ⟨p', hp, h _ p' hr⟩)

theorem Takes.mono {R S : Except Failure α → P → Prop} (ha : a.Takes C p R)
    (h : ∀ r p', R r p' → S r p') : a.Takes C p S := fun _ _ _ hleads =>
  (ha _ _ _ hleads).mono fun ⟨p', hp, hr⟩ => ⟨p', hp, h _ p' hr⟩

theorem takes_pure {R : Except Failure α → P → Prop} {x : α} (h : R (.ok x) p) :
    (pure x : Act α).Takes C p R := fun _ _ _ hleads => ⟨p, hleads, h⟩

theorem takes_throw {R : Except Failure α → P → Prop} {f : Failure} (h : R (.error f) p) :
    (throw f : Act α).Takes C p R := fun _ _ _ hleads => ⟨p, hleads, h⟩

theorem takes_hold (hwait : C.waits p) (hrefl : ∀ s, C.resumes p s → C.leads p s p s) :
    hold.Takes C p fun r p' => p' = p ∧ C.answers r := fun _ _ _ hleads =>
  ⟨p, hwait, hleads, fun _ s' hr hs => ⟨p, hrefl s' hs, rfl, hr⟩⟩

end Act

end KeyedBreaker
