import KeyedBreaker.Proofs.Breaker.Knowledge

namespace KeyedBreaker

open Record Breaker

/-- The circuit of a key is open, and its break ends at an instant. -/
def Scene.OpenUntil (key : String) (u : Instant) (s : Scene) : Prop :=
  ∃ r, s.store.lookup key = .ok (some r) ∧ r.status = .open ∧ r.closeAt = some u

/-- The circuit of a key turns calls away, and no break that it may be in ends before an instant. A
circuit that is opened again from then on has no earlier end of its break. -/
structure Scene.Shut (c : Config) (key : String) (u : Instant) (s : Scene) : Prop where
  held : ∃ r u', s.store.lookup key = .ok (some r) ∧ r.status.rejects = true ∧
    r.closeAt = some u' ∧ u'.reaches u = .ok true
  opened : ∃ t, t.addSeconds c.breakDuration = .ok u ∧ s.now.reaches t = .ok true

theorem Scene.openUntil_iff {key : String} {u : Instant} {s : Scene} :
    s.OpenUntil key u ↔
      ((s.store.lookup key).toOption.join.map fun r => (r.status, r.closeAt)) =
        some (.open, some u) := by
  unfold OpenUntil
  cases s.store.lookup key with
  | error f => exact ⟨fun ⟨_, h, _⟩ => (nomatch h), fun h => (nomatch h)⟩
  | ok x =>
      cases x with
      | none => exact ⟨fun ⟨_, h, _⟩ => (nomatch h), fun h => (nomatch h)⟩
      | some r =>
          refine ⟨?_, fun h => ⟨r, rfl, ?_⟩⟩
          · rintro ⟨r', hr, hs, hu⟩
            cases hr
            exact congrArg some (Prod.ext hs hu)
          · exact ⟨congrArg Prod.fst (Option.some.inj h), congrArg Prod.snd (Option.some.inj h)⟩

instance (key : String) (u : Instant) (s : Scene) : Decidable (s.OpenUntil key u) :=
  decidable_of_iff _ Scene.openUntil_iff.symm

theorem Instant.reaches_eq_false_of_reaches {t t' u : Instant} (h : t'.reaches u = .ok false)
    (ht : t'.reaches t = .ok true) : t.reaches u = .ok false := by
  obtain ⟨m, hm, hm0⟩ := reaches_eq_false_iff.1 h
  obtain ⟨n, hn, hn0⟩ := reaches_eq_true_iff.1 ht
  exact reaches_eq_false_iff.2 ⟨-n + m, gap?_trans (gap?_symm hn) hm, by omega⟩

/-- At some time from one instant to another this much time remained. -/
def Instant.Remains (u t₀ t : Instant) (d : Duration) : Prop :=
  ∃ t', t'.reaches t₀ = .ok true ∧ t.reaches t' = .ok true ∧ u.since t' = .ok d ∧ 0 < d.micros

theorem Instant.Remains.later {u t₀ t t' : Instant} {d : Duration} (h : u.Remains t₀ t d)
    (ht : t'.reaches t = .ok true) : u.Remains t₀ t' d := by
  obtain ⟨t₁, h₀, h₁, h⟩ := h
  exact ⟨t₁, h₀, Instant.reaches_trans ht h₁, h⟩

namespace Scene

variable {b : Breaker} {c : Config} {key other : String} {u : Instant} {s s' : Scene}
  {target? : Option Status} {polite : Prop} {p p' : Stance} {rs : List Record} {x : Option Record}
  {r : Record}

namespace Shut

variable (h : s.Shut c key u)
include h

theorem of_stored (hnow : s'.now.reaches s.now = .ok true) {u' : Instant}
    (hr : s'.store.lookup key = .ok (some r)) (hrejects : r.status.rejects = true)
    (hclose : r.closeAt = some u') (hend : u'.reaches u = .ok true) : s'.Shut c key u := by
  obtain ⟨t, ht, hlater⟩ := h.opened
  exact ⟨⟨r, u', hr, hrejects, hclose, hend⟩, t, ht, Instant.reaches_trans hnow hlater⟩

theorem of_lookup (hnow : s'.now.reaches s.now = .ok true)
    (he : s'.store.lookup key = s.store.lookup key) : s'.Shut c key u := by
  obtain ⟨r, u', hr, hrejects, hclose, hend⟩ := h.held
  exact h.of_stored hnow (he.trans hr) hrejects hclose hend

theorem record (hu : s.now.reaches u = .ok false) (hx : s.store.lookup key = .ok x) :
    (statusOf x).rejects = true ∧
      ∃ u', closeAtOf x = some u' ∧ u'.reaches u = .ok true ∧ s.now.reaches u' = .ok false := by
  obtain ⟨r, u', hr, hrejects, hclose, hend⟩ := h.held
  rw [hx] at hr
  cases hr
  exact ⟨hrejects, u', hclose, hend, Instant.reaches_eq_false_trans hu hend⟩

end Shut

theorem OpenUntil.shut (h : s.OpenUntil key u)
    (ht : ∃ t, t.addSeconds c.breakDuration = .ok u ∧ s.now.reaches t = .ok true) :
    s.Shut c key u := by
  obtain ⟨r, hr, hs, hu⟩ := h
  exact ⟨⟨r, u, hr, hs ▸ rfl, hu, Instant.reaches_self u⟩, ht⟩

end Scene

namespace Breaker

variable {b : Breaker} {key other : String} {u : Instant} {s s' : Scene}
  {target? : Option Status} {polite : Prop} {p p' : Stance}

theorem Strides.knows (h : b.Strides key target? polite p s p' s')
    (hk : p.Knows b.config key s) : p'.Knows b.config key s' :=
  h.invariant (I := fun q t => q.Knows b.config key t) hk fun _ hq hs => hq.stride hs

/-- What is known at each stance of a call that has found the circuit open, until it waits: it is
turned away with the time that is left until the end of the break. -/
def Stance.TurnedAway (key : String) (u : Instant) (r : Record) (polite : Prop) (t₀ : Instant)
    (s : Scene) : Stance → Prop
  | .fresh => s.store.lookup key = .ok (some r)
  | .loaded e | .admitted e => e = r ∧ s.store.lookup key = .ok (some r)
  | .settled e result | .due e result => e = r ∧ s.store.lookup key = .ok (some r) ∧
    ∃ d, u.Remains t₀ s.now d ∧ result = .error (.circuitOpen key d.seconds)
  | .parting answer => s.store.lookup key = .ok (some r.next) ∧
    ∃ d, u.Remains t₀ s.now d ∧ Yielded polite answer (.error (.circuitOpen key d.seconds))
  | _ => False

theorem reason_of_open {r : Record} {t : Instant} (hs : r.status = .open) (hu : r.closeAt = some u)
    (ht : t.reaches u = .ok false) :
    ∃ d, u.since t = .ok d ∧ 0 < d.micros ∧ reason key t r = .circuitOpen key d.seconds := by
  obtain ⟨d, hd, hpos⟩ := Instant.since_of_reaches_eq_false ht
  refine ⟨d, hd, hpos, ?_⟩
  have hremaining : r.remaining t = .ok d.seconds := by
    rw [Record.remaining, hs, hu]
    dsimp only
    rw [hd]
    exact congrArg Except.ok (Binary64.max_zero_of_pos (Duration.zero_lt_seconds hpos))
  rw [reason, hs, hremaining]

theorem Stance.TurnedAway.later {r : Record} {t₀ t : Instant}
    (h : p.TurnedAway key u r polite t₀ s) (ht : t.reaches s.now = .ok true) :
    p.TurnedAway key u r polite t₀ { s with now := t } := by
  cases p with
  | settled | due =>
      obtain ⟨he, hx, d, hd, hresult⟩ := h
      exact ⟨he, hx, d, hd.later ht, hresult⟩
  | parting =>
      obtain ⟨hx, d, hd, hy⟩ := h
      exact ⟨hx, d, hd.later ht, hy⟩
  | _ => exact h

theorem Stride.turnedAway {r : Record} {t₀ : Instant} (h : b.Stride key none polite p s p' s')
    (hp : p.TurnedAway key u r polite t₀ s) (hs : r.status = .open) (hu : r.closeAt = some u)
    (ht₀ : s.now.reaches t₀ = .ok true) (hend : s'.now.reaches u = .ok false) :
    p'.TurnedAway key u r polite t₀ s' := by
  have hshut : Shut s.now r :=
    .inr ⟨hs, u, hu, Instant.reaches_eq_false_of_reaches hend h.grows.1⟩
  cases h with
  | ticks ht => exact hp.later ht
  | talks => cases p <;> exact hp
  | unloaded hl =>
      rw [show s.store.lookup key = _ from hp] at hl
      cases hl
  | loads hl =>
      rw [show s.store.lookup key = _ from hp] at hl
      cases hl
      exact ⟨rfl, hp⟩
  | unadvanced _ hc | moves _ hc | unrenewed hc | owes hc =>
      -- An open circuit owes nothing before the end of its break.
      obtain ⟨rfl, -⟩ := hp
      rw [change_of_shut hshut] at hc
      cases hc
  | stays | rests => exact hp
  | starts hpermit =>
      obtain ⟨rfl, -⟩ := hp
      rw [permit_of_shut hshut] at hpermit
      cases hpermit
  | rejects hpermit =>
      obtain ⟨rfl, hx⟩ := hp
      rw [permit_of_shut hshut] at hpermit ⊢
      cases hpermit
      obtain ⟨d, hd, hpos, hreason⟩ := reason_of_open hs hu
        (Instant.reaches_eq_false_of_reaches hend (Instant.reaches_self _))
      exact ⟨rfl, hx, d, ⟨s.now, ht₀, Instant.reaches_self _, hd, hpos⟩, congrArg _ hreason⟩
  | discards hf =>
      obtain ⟨-, -, d, -, hresult⟩ := hp
      cases hresult
      cases hf
  | saves hx hv hw =>
      obtain ⟨rfl, hx', d, hd, rfl⟩ := hp
      exact ⟨hw.store.lookup_cons, d, hw.now ▸ hd, .inl rfl⟩
  | drops hx hv =>
      obtain ⟨rfl, hx', -⟩ := hp
      rw [hx] at hx'
      cases hx'
      exact absurd rfl hv
  | interrupted htells hpolite hf =>
      cases p with
      | parting answer =>
          obtain ⟨hx, d, hd, -⟩ := hp
          exact ⟨hx, d, hd, .inr ⟨hpolite, _, rfl, hf⟩⟩
      | announcing | owing => exact hp.elim
      | _ => exact htells.elim
  | announced | told => exact hp.elim
  | forces ht | unforced ht => cases ht

theorem Strides.turnedAway {r : Record} (h : b.Strides key none polite .fresh s p' s')
    (hr : s.store.lookup key = .ok (some r)) (hs : r.status = .open) (hu : r.closeAt = some u)
    (hend : s'.now.reaches u = .ok false) :
    s'.starts = s.starts ∧ p'.TurnedAway key u r polite s.now s' := by
  refine (h.invariant (I := fun q t => t.now.reaches s.now = .ok true ∧ t.starts = s.starts ∧
    q.TurnedAway key u r polite s.now t) ⟨Instant.reaches_self _, rfl, hr⟩ ?_).2
  rintro q t q' t' hrest ⟨hnow, hstarts, hq⟩ hstride
  have hq' := hstride.turnedAway hq hs hu hnow
    (Instant.reaches_eq_false_of_reaches hend hrest.grows.1)
  refine ⟨Instant.reaches_trans hstride.grows.1 hnow, ?_, hq'⟩
  rcases hstride.starts_cases with hsame | ⟨-, e, o, -, rfl⟩
  · exact hsame.trans hstarts
  · exact hq'.elim

end Breaker

end KeyedBreaker
