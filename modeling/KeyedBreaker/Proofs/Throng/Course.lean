import KeyedBreaker.Proofs.Breaker.Course

namespace KeyedBreaker

open Act Breaker

namespace Demand

def target? : Demand → Option Status
  | .call .. => none
  | .force _ _ target _ => some target

def course (d : Demand) (polite : Prop) : Course Stance :=
  d.breaker.course d.key d.target? polite

def Strides (d : Demand) (polite : Prop) : Stance → Scene → Stance → Scene → Prop :=
  d.breaker.Strides d.key d.target? polite

variable {d : Demand} {polite : Prop}

theorem brings_begin (hb : polite → d.breaker.Polite) :
    d.breaker.Brings d.key d.target? polite d.begin .fresh Upshot.stance := by
  cases d with
  | call b key =>
      refine (brings_enterCall rfl hb).map fun stage => ?_
      cases stage <;> rfl
  | force b key target attempt => exact brings_enforce rfl hb attempt

end Demand

def Breaker.Stance.resumed (c : Config) : Cue → Stance → Stance
  | .conclude result, .running o =>
    .settled (Record.settle c o.status o.record result).1
      (Record.settle c o.status o.record result).2
  | _, σ => σ

namespace Party

/-- The stance of a party that stands still. -/
def At (polite : Prop) (p : Party) (σ : Stance) : Prop :=
  match p.standing with
  | .outside => σ = .fresh
  | .waiting next => σ.Tells ∧ ∀ r s, (p.demand.course polite).answers r →
      (p.demand.course polite).resumes σ s →
        (next r).Ensures (p.demand.course polite)
          (p.demand.breaker.Arrives p.demand.key p.demand.target? polite Upshot.stance) σ s s
  | .working o => σ = .running o
  | .over result => σ = .parting result

variable {polite : Prop} {p : Party} {σ : Stance} {s₀ s : Scene}

theorem At.ne_retrying (h : p.At polite σ) : σ ≠ .retrying := by
  rintro rfl
  unfold At at h
  split at h
  · cases h
  · exact h.1
  · cases h
  · cases h

/-- A party that has gone on stands at a place where it may stop. It does not try again: no write has
met a conflicting one. -/
theorem at_stop {halt : Halt Upshot} (hσ : σ ≠ .retrying)
    (h : halt.Ensures (p.demand.course polite)
      (p.demand.breaker.Arrives p.demand.key p.demand.target? polite Upshot.stance) σ s₀ s) :
    ∃ σ', (p.demand.course polite).leads σ s₀ σ' s ∧ (p.stop halt).At polite σ' ∧
      (p.stop halt).demand = p.demand ∧
      ((p.stop halt).worked = true → p.worked = true ∨ ∃ o, σ' = .running o) := by
  rcases halt with (f | (o | - | a)) | next
  · obtain ⟨σ', hl, rfl⟩ := h
    exact ⟨_, hl, rfl, rfl, .inl⟩
  · obtain ⟨σ', hl, rfl⟩ := h
    exact ⟨_, hl, rfl, rfl, fun _ => .inr ⟨o, rfl⟩⟩
  · obtain ⟨σ', hl, rfl⟩ := h
    exact absurd rfl (hl.1.ne_retrying hσ)
  · obtain ⟨σ', hl, rfl⟩ := h
    exact ⟨_, hl, rfl, rfl, .inl⟩
  · obtain ⟨σ', htells, hl, hnext⟩ := h
    exact ⟨σ', hl, ⟨htells, hnext⟩, rfl, .inl⟩

theorem At.placed {key key' : String} {s' : Scene} {rs : List Record} (h : p.At polite σ)
    (hplaced : σ.Placed key s) (hg : s.store.Grows key' rs s'.store) : σ.Placed key s' := by
  have hread : (∃ x, s.store.lookup key = .ok x) → ∃ x, s'.store.lookup key = .ok x := by
    rintro ⟨x, hx⟩
    obtain ⟨y, hy, -⟩ := hg.versionOf_le hx
    exact ⟨y, hy⟩
  cases σ with
  | fresh | retrying | parting => trivial
  | loaded r =>
      unfold At at h
      split at h
      · cases h
      · exact h.1.elim
      · cases h
      · cases h
  | _ => exact hread hplaced

theorem act?_ensures (hb : polite → p.demand.breaker.Polite) (h : p.At polite σ) {cue : Cue}
    {a : Act Upshot} (ha : p.act? cue = some a) (hq : s.Quiet) (hplaced : σ.Placed p.demand.key s)
    (hcue : ∀ r, cue = .answer r → (p.demand.course polite).answers r) :
    a.Ensures (p.demand.course polite)
      (p.demand.breaker.Arrives p.demand.key p.demand.target? polite Upshot.stance)
      (σ.resumed p.demand.breaker.config cue) s s := by
  obtain ⟨d, standing, worked⟩ := p
  cases cue with
  | enter =>
      cases standing with
      | outside =>
          cases ha
          obtain rfl : σ = .fresh := h
          exact Demand.brings_begin hb _ s s (leads_of_resumes ⟨hq, trivial⟩)
      | _ => cases ha
  | answer r =>
      cases standing with
      | waiting next =>
          cases ha
          exact h.2 r s (hcue r rfl) ⟨hq, hplaced⟩
      | _ => cases ha
  | conclude result =>
      cases d with
      | force => cases ha
      | call b key =>
          cases standing with
          | working o =>
              cases ha
              obtain rfl : σ = .running o := h
              have hends : b.Brings key none polite
                  ((.answered ∘ .value : Json → Upshot) <$> b.conclude key o result)
                  (.settled (Record.settle b.config o.status o.record result).1
                    (Record.settle b.config o.status o.record result).2) Upshot.stance :=
                (brings_conclude hb o result).map fun _ => rfl
              exact hends _ s s (leads_of_resumes ⟨hq, hplaced⟩)
          | _ => cases ha

end Party

namespace Throng

variable {polite : Prop} {K : Party → Stance → Scene → Prop} {s s' : Throng} {m : Move} {i : Nat}
  {p p' : Party} {σ σ' : Stance} {cue : Cue}

/-- Of each party it is known where it stands, and something more of where that is. -/
structure Holds (polite : Prop) (K : Party → Stance → Scene → Prop) (s : Throng) : Prop where
  quiet : s.scene.Quiet
  stands : ∀ p ∈ s.parties, ∃ σ, p.At polite σ ∧ σ.Placed p.demand.key s.scene ∧
    K p σ s.scene

structure Goes (polite : Prop) (s : Throng) (i : Nat) (p : Party) (σ : Stance) (cue : Cue)
    (p' : Party) (σ' : Stance) (s' : Throng) : Prop where
  may : ∃ a, s.deed? p cue = some a
  parties : s'.parties = s.parties.set i p'
  demand : p'.demand = p.demand
  worked : p'.worked = true → p.worked = true ∨ ∃ o, σ' = .running o
  strides : p.demand.Strides polite (σ.resumed p.demand.breaker.config cue) s.scene σ' s'.scene
  quiet : s'.scene.Quiet
  placed : σ'.Placed p.demand.key s'.scene
  stands : p'.At polite σ'

theorem deed?_eq_some {a : Act Upshot} (h : s.deed? p cue = some a) :
    p.act? cue = some a ∧ (cue = .enter → s.isFree p.demand.key = true) := by
  unfold deed? at h
  split at h
  · split at h
    · rename_i hfree
      exact ⟨h, fun _ => hfree⟩
    · cases h
  · rename_i hcue
    exact ⟨h, fun he => absurd he hcue⟩

theorem move_cases (s : Throng) (m : Move) :
    (∃ d, m = .join d) ∨ (∃ t x, m = .pass t x) ∨ s.move m = s ∨
      (∃ (i : Nat) (p : Party), s.parties[i]? = some p ∧ p.standing = .outside ∧ s.move m =
        { s with parties := s.parties.set i { p with standing := .over (.error .cancellation) } }) ∨
      ∃ (i : Nat) (p : Party) (cue : Cue) (ts : List Instant) (a : Act Upshot),
        m = .go i cue ts ∧ s.parties[i]? = some p ∧ s.deed? p cue = some a ∧
        s.move m = s.goOn i p a ts := by
  cases m with
  | join d => exact .inl ⟨d, rfl⟩
  | pass t x => exact .inr (.inl ⟨t, x, rfl⟩)
  | quit i =>
      cases hi : s.parties[i]? with
      | none => exact .inr (.inr (.inl (by rw [move, hi])))
      | some p =>
          cases hp : p.standing with
          | outside => exact .inr (.inr (.inr (.inl ⟨i, p, hi, hp, by rw [move, hi]; simp only [hp]⟩)))
          | _ => exact .inr (.inr (.inl (by rw [move, hi]; simp only [hp])))
  | go i cue ts =>
      cases hi : s.parties[i]? with
      | none => exact .inr (.inr (.inl (by rw [move, hi])))
      | some p =>
          cases ha : s.deed? p cue with
          | none => exact .inr (.inr (.inl (by rw [move, hi]; simp only [ha])))
          | some a =>
              exact .inr (.inr (.inr (.inr ⟨i, p, cue, ts, a, rfl, hi, ha,
                by rw [move, hi]; simp only [ha]⟩)))

def Answered (polite : Prop) (m : Move) : Prop :=
  ∀ i r ts, m = .go i (.answer r) ts → polite → ∀ f, r = .error f → f.isOrdinary = true

theorem Holds.exists_goes (h : s.Holds polite K) {ts : List Instant} {a : Act Upshot}
    (hi : s.parties[i]? = some p) (ha : s.deed? p cue = some a)
    (hb : polite → p.demand.breaker.Polite) (hanswer : Answered polite (.go i cue ts))
    (hforward : s.isForward (.go i cue ts) = true) :
    ∃ σ p' σ', p.At polite σ ∧ σ.Placed p.demand.key s.scene ∧ K p σ s.scene ∧
      s.Goes polite i p σ cue p' σ' (s.goOn i p a ts) := by
  obtain ⟨σ, hat, hplaced, hk⟩ := h.stands p (List.mem_of_getElem? hi)
  have hts : a.isForward ts s.scene = true := by
    simpa [isForward, hi, ha] using hforward
  have hσ : σ.resumed p.demand.breaker.config cue ≠ .retrying := by
    unfold Stance.resumed
    split
    · exact nofun
    · exact hat.ne_retrying
  obtain ⟨σ', hl, hat', hdemand, hworked⟩ := Party.at_stop hσ ((Party.act?_ensures hb hat
    (deed?_eq_some ha).1 h.quiet hplaced fun r hr => hanswer i r ts (hr ▸ rfl)).stretch hts)
  exact ⟨σ, p.stop (a.stretch ts s.scene).1, σ', hat, hplaced, hk, ⟨a, ha⟩, rfl, hdemand, hworked,
    hl.1, hl.2.1, hl.2.2, hat'⟩

theorem Holds.move_cases (h : s.Holds polite K) (hforward : s.isForward m = true)
    (hanswer : Answered polite m) (hb : ∀ p ∈ s.parties, polite → p.demand.breaker.Polite) :
    (s.move m).scene.store = s.scene.store ∧ (s.move m).scene.events = s.scene.events ∧
        (s.move m).scene.now.reaches s.scene.now = .ok true ∨
      ∃ i p cue ts σ p' σ', m = .go i cue ts ∧ s.parties[i]? = some p ∧ p.At polite σ ∧
        K p σ s.scene ∧ s.Goes polite i p σ cue p' σ' (s.move m) := by
  rcases s.move_cases m with ⟨d, rfl⟩ | ⟨t, x, rfl⟩ | he | ⟨i, p, hi, hp, he⟩ |
    ⟨i, p, cue, ts, a, rfl, hi, ha, he⟩
  · exact .inl ⟨rfl, rfl, Instant.reaches_self _⟩
  · exact .inl ⟨rfl, rfl, Instant.isSince_iff.1 hforward⟩
  · rw [he]
    exact .inl ⟨rfl, rfl, Instant.reaches_self _⟩
  · rw [he]
    exact .inl ⟨rfl, rfl, Instant.reaches_self _⟩
  · obtain ⟨σ, p', σ', hat, -, hk, hg⟩ :=
      h.exists_goes hi ha (hb p (List.mem_of_getElem? hi)) hanswer hforward
    rw [← he] at hg
    exact .inr ⟨i, p, cue, ts, σ, p', σ', rfl, hi, hat, hk, hg⟩

theorem Holds.quit (h : s.Holds polite K) (hi : s.parties[i]? = some p)
    (hp : p.standing = .outside)
    (hquit : K p .fresh s.scene →
      K { p with standing := .over (.error .cancellation) } (.parting (.error .cancellation))
        s.scene) :
    Holds polite K
      { s with parties := s.parties.set i { p with standing := .over (.error .cancellation) } } := by
  refine ⟨h.quiet, fun q hq => ?_⟩
  rcases List.mem_or_eq_of_mem_set hq with hq | rfl
  · exact h.stands q hq
  · obtain ⟨σ, hat, -, hk⟩ := h.stands p (List.mem_of_getElem? hi)
    rw [Party.At, hp] at hat
    subst hat
    exact ⟨_, rfl, trivial, hquit hk⟩

/-- Where one party goes on, the others stay where they are; what they know of the store is what has
to be shown again. -/
theorem Holds.goes (h : s.Holds polite K) (hi : s.parties[i]? = some p)
    (hg : s.Goes polite i p σ cue p' σ' s') (hown : K p' σ' s'.scene)
    (hothers : ∀ j q τ, j ≠ i → s.parties[j]? = some q → q.At polite τ → K q τ s.scene →
      K q τ s'.scene) :
    s'.Holds polite K := by
  obtain ⟨-, rs, hgrows⟩ := hg.strides.grows
  refine ⟨hg.quiet, fun q hq => ?_⟩
  rw [hg.parties] at hq
  obtain ⟨j, hj⟩ := List.mem_iff_getElem?.1 hq
  by_cases hij : i = j
  · subst hij
    rw [List.getElem?_set_self (List.getElem?_eq_some_iff.1 hi).1] at hj
    cases hj
    exact ⟨σ', hg.stands, hg.demand ▸ hg.placed, hown⟩
  · rw [List.getElem?_set_ne hij] at hj
    obtain ⟨τ, hτ, hplaced, hk⟩ := h.stands q (List.mem_of_getElem? hj)
    exact ⟨τ, hτ, hτ.placed hplaced hgrows, hothers j q τ (Ne.symm hij) hj hτ hk⟩

theorem Holds.move (h : s.Holds polite K) (hforward : s.isForward m = true)
    (hanswer : Answered polite m) (hb : ∀ p ∈ s.parties, polite → p.demand.breaker.Polite)
    (hjoin : ∀ d, m = .join d → K { demand := d } .fresh s.scene)
    (hquit : ∀ p ∈ s.parties, K p .fresh s.scene →
      K { p with standing := .over (.error .cancellation) } (.parting (.error .cancellation)) s.scene)
    (hpass : ∀ p σ t x, t.reaches s.scene.now = .ok true → K p σ s.scene →
      K p σ { s.scene with now := t, monotonic := x })
    (hgoes : ∀ i p σ cue ts p' σ', m = .go i cue ts → s.parties[i]? = some p → p.At polite σ →
      K p σ s.scene → s.Goes polite i p σ cue p' σ' (s.move m) →
      K p' σ' (s.move m).scene ∧ ∀ j q τ, j ≠ i → s.parties[j]? = some q → q.At polite τ →
        K q τ s.scene → K q τ (s.move m).scene) :
    (s.move m).Holds polite K := by
  rcases s.move_cases m with ⟨d, rfl⟩ | ⟨t, x, rfl⟩ | he | ⟨i, p, hi, hp, he⟩ |
    ⟨i, p, cue, ts, a, rfl, hi, ha, he⟩
  · refine ⟨h.quiet, fun q hq => ?_⟩
    rcases List.mem_append.1 hq with hq | hq
    · exact h.stands q hq
    · cases List.mem_singleton.1 hq
      exact ⟨.fresh, rfl, trivial, hjoin d rfl⟩
  · refine ⟨h.quiet, fun q hq => ?_⟩
    obtain ⟨σ, hat, hplaced, hk⟩ := h.stands q hq
    exact ⟨σ, hat, by cases σ <;> exact hplaced, hpass q σ t x (Instant.isSince_iff.1 hforward) hk⟩
  · rw [he]
    exact h
  · rw [he]
    exact h.quit hi hp (hquit p (List.mem_of_getElem? hi))
  · rw [he] at hgoes ⊢
    obtain ⟨σ, p', σ', hat, -, hk, hg⟩ :=
      h.exists_goes hi ha (hb p (List.mem_of_getElem? hi)) hanswer hforward
    obtain ⟨hown, hothers⟩ := hgoes i p σ cue ts p' σ' rfl hi hat hk hg
    exact h.goes hi hg hown hothers

end Throng

end KeyedBreaker
