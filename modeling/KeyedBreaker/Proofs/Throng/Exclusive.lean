import KeyedBreaker.Proofs.Throng.Course

namespace KeyedBreaker

open Act Breaker

namespace Party

variable {polite : Prop} {p : Party} {σ : Stance}

theorem holds_eq_true_iff {key : String} : p.holds key = true ↔
    p.demand.target? = none ∧ p.demand.key = key ∧
      ((∃ next, p.standing = .waiting next) ∨ ∃ o, p.standing = .working o) := by
  obtain ⟨d, standing, worked⟩ := p
  cases d <;> cases standing <;> simp [holds, Demand.target?, Demand.key]

theorem At.cases (h : p.At polite σ) : σ = .fresh ∨ (∃ o, σ = .running o) ∨ σ.Tells := by
  unfold At at h
  split at h
  · exact .inl h
  · exact .inr (.inr h.1)
  · exact .inr (.inl ⟨_, h⟩)
  · subst h
    exact .inr (.inr trivial)

theorem At.waiting_of_tells (h : p.At polite σ) (hσ : σ.Tells) (hp : ∀ a, σ ≠ .parting a) :
    ∃ next, p.standing = .waiting next := by
  unfold At at h
  split at h
  · subst h
    exact hσ.elim
  · exact ⟨_, by assumption⟩
  · subst h
    exact hσ.elim
  · exact absurd h (hp _)

end Party

namespace Throng

def Exclusive (key : String) (ps : List Party) : Prop :=
  ∀ (i j : Nat) (p q : Party), ps[i]? = some p → ps[j]? = some q → p.holds key = true →
    q.holds key = true → i = j

variable {polite : Prop} {key : String} {s s' : Throng} {i : Nat} {p p' : Party} {σ σ' : Stance}
  {cue : Cue}

theorem Exclusive.set {ps : List Party} (h : Exclusive key ps) (hi : ps[i]? = some p)
    (hp : p'.holds key = true → p.holds key = true ∨ ∀ q ∈ ps, q.holds key = false) :
    Exclusive key (ps.set i p') := by
  have hset : ∀ {j : Nat} {q : Party}, (ps.set i p')[j]? = some q → q.holds key = true →
      ∃ q₀, ps[j]? = some q₀ ∧
        (q₀.holds key = true ∨ j = i ∧ ∀ q' ∈ ps, q'.holds key = false) := by
    intro j q hj hq
    by_cases hij : i = j
    · subst hij
      rw [List.getElem?_set_self (List.getElem?_eq_some_iff.1 hi).1] at hj
      cases hj
      exact ⟨p, hi, (hp hq).imp id fun hnone => ⟨rfl, hnone⟩⟩
    · rw [List.getElem?_set_ne hij] at hj
      exact ⟨q, hj, .inl hq⟩
  intro j k q q' hjq hkq hq hq'
  obtain ⟨q₀, hj, hq⟩ := hset hjq hq
  obtain ⟨q₁, hk, hq'⟩ := hset hkq hq'
  rcases hq with hq | ⟨rfl, hnone⟩
  · rcases hq' with hq' | ⟨-, hnone⟩
    · exact h j k q₀ q₁ hj hk hq hq'
    · rw [hnone q₀ (List.mem_of_getElem? hj)] at hq
      cases hq
  · rcases hq' with hq' | ⟨rfl, -⟩
    · rw [hnone q₁ (List.mem_of_getElem? hk)] at hq'
      cases hq'
    · rfl

theorem exclusive_append {d : Demand} (h : Exclusive key s.parties) :
    Exclusive key (s.parties ++ [{ demand := d }]) := by
  have hold : ∀ {j : Nat} {q : Party}, (s.parties ++ [{ demand := d }])[j]? = some q →
      q.holds key = true → s.parties[j]? = some q := by
    intro j q hj hq
    rw [List.getElem?_append] at hj
    split at hj
    · exact hj
    · obtain ⟨-, -, ⟨next, hs⟩ | ⟨o, hs⟩⟩ := Party.holds_eq_true_iff.1 hq
      all_goals
        obtain rfl := List.mem_singleton.1 (List.mem_of_getElem? hj)
        cases hs
  exact fun i j p q hi hj hp hq => h i j p q (hold hi hp) (hold hj hq) hp hq

theorem holds_of_isFree (hlocks : s.scene.store.hasLocks = true) (hfree : s.isFree key = true)
    {q : Party} (hq : q ∈ s.parties) : q.holds key = false := by
  rw [isFree, hlocks, Bool.not_true, Bool.false_or, List.all_eq_true] at hfree
  simpa using hfree q hq

/-- Whoever goes on holds its key, gets it now, or is an overwrite that has given it back. -/
theorem Goes.cases (h : s.Goes polite i p σ cue p' σ' s') (hat : p.At polite σ)
    (hcall : σ.IsOfCall → p.demand.target? = none) :
    p.holds p.demand.key = true ∨ s.isFree p.demand.key = true ∨
      p.demand.target? ≠ none ∧ σ.resumed p.demand.breaker.config cue = σ ∧
        ∃ answer, σ = .parting answer := by
  obtain ⟨a, ha⟩ := h.may
  obtain ⟨hact, hfree⟩ := deed?_eq_some ha
  obtain ⟨d, standing, worked⟩ := p
  cases cue with
  | enter => exact .inr (.inl (hfree rfl))
  | answer r =>
      cases standing with
      | waiting next =>
          cases d with
          | call b k => exact .inl (decide_eq_true rfl)
          | force b k target attempt =>
              -- An overwrite tells of a transition when there is nothing else left to do.
              refine .inr (.inr ⟨nofun, rfl, ?_⟩)
              cases σ with
              | parting answer => exact ⟨answer, rfl⟩
              | announcing | owing => cases hcall trivial
              | _ => exact hat.1.elim
      | _ => cases hact
  | conclude result =>
      cases d with
      | force => cases hact
      | call b k =>
          cases standing with
          | working o => exact .inl (decide_eq_true rfl)
          | _ => cases hact

theorem Goes.hasLocks (h : s.Goes polite i p σ cue p' σ' s') :
    s'.scene.store.hasLocks = s.scene.store.hasLocks := by
  obtain ⟨-, rs, hg⟩ := h.strides.grows
  exact hg.hasLocks

theorem Goes.exclusive (h : s.Goes polite i p σ cue p' σ' s') (hat : p.At polite σ)
    (hcall : σ.IsOfCall → p.demand.target? = none) (hi : s.parties[i]? = some p)
    (hlocks : s.scene.store.hasLocks = true) (hex : Exclusive key s.parties) :
    Exclusive key s'.parties := by
  rw [h.parties]
  refine hex.set hi fun hp' => ?_
  obtain ⟨hnone, hk, -⟩ := Party.holds_eq_true_iff.1 hp'
  rw [h.demand] at hnone hk
  subst hk
  rcases h.cases hat hcall with hp | hfree | ⟨hforce, -⟩
  · exact .inl hp
  · exact .inr fun q hq => holds_of_isFree hlocks hfree hq
  · exact absurd hnone hforce

/-- Where a party holds a key, others who go on with that key only part. -/
theorem Goes.parting_of_held (h : s.Goes polite i p σ cue p' σ' s')
    (hat : p.At polite σ) (hcall : σ.IsOfCall → p.demand.target? = none)
    (hi : s.parties[i]? = some p) (hlocks : s.scene.store.hasLocks = true)
    (hex : Exclusive p.demand.key s.parties) {j : Nat} {q : Party} (hj : s.parties[j]? = some q)
    (hq : q.holds p.demand.key = true) (hij : j ≠ i) :
    σ.resumed p.demand.breaker.config cue = σ ∧ ∃ answer, σ = .parting answer := by
  rcases h.cases hat hcall with hp | hfree | ⟨-, hparting⟩
  · exact absurd (hex j i q p hj hi hq hp) hij
  · rw [holds_of_isFree hlocks hfree (List.mem_of_getElem? hj)] at hq
    cases hq
  · exact hparting

end Throng

end KeyedBreaker
