import KeyedBreaker.Proofs.Breaker.Foreign

namespace KeyedBreaker

open Act Breaker

def Visit.still (b : Breaker) (result : Except Failure Json) : Visit where
  breaker := b
  result := result

theorem Visit.sameClock_entry (v : Visit) (key : String) (s : Scene) :
    SameClock (v.before s) (v.entry key s).2 :=
  keeps_entry sameClock_steady fun _ => ⟨rfl, rfl⟩

inductive Chore where
  | errand (m : Errand)
  | call (result : Except Failure Json)

def Chore.after (b : Breaker) (key : String) (s : Scene) : Chore → Scene
  | .errand m => ((m.act b key).play s).2
  | .call result => ((Visit.still b result).run key s).2

def Chore.afterAll (b : Breaker) (key : String) (s : Scene) (cs : List Chore) : Scene :=
  cs.foldl (Chore.after b key) s

def Record.Tidy (t : Instant) (r : Record) : Prop := r.Dated t ∧ r.Counted

theorem Breaker.tidy_carries (b : Breaker) (t : Instant) : b.Carries t (Record.Tidy t) :=
  (dated_carries b t).and (counted_carries b t)

/-- The clock shows this time, no access meets a fault, and what is stored under the key, if anything, is
a record as breakers write it. -/
structure Scene.Tidy (t : Instant) (key : String) (s : Scene) : Prop where
  quiet : s.Quiet
  now : s.now = t
  stored : ∃ x, s.store.lookup key = .ok x ∧ ∀ r, x = some r → r.Tidy t

variable {b : Breaker} {key : String} {s s' : Scene} {t : Instant} {rs : List Record} {f : Failure}

namespace Scene.Tidy

theorem leads {ts : List Event} (h : s.Tidy t key) (hl : s.Leads key rs ts s')
    (hrs : ∀ r, rs.head? = some r → r.Tidy t) : s'.Tidy t key := by
  obtain ⟨x, hx, hold⟩ := h.stored
  refine ⟨hl.quiet h.quiet, hl.now.trans h.now, _, hl.store.lookup hx, ?_⟩
  cases rs with
  | nil => exact hold
  | cons r rs => exact hrs

theorem carries (h : s.Tidy t key) (b : Breaker) : b.Carries s.now (Record.Tidy t) := by
  rw [h.now]
  exact b.tidy_carries t

theorem play_act_load (m : Errand) (hm : ∀ target, m ≠ .force target) :
    ((m.act b key).play s).2 = ((b.load key).play s).2 := by
  cases m with
  | status =>
      rw [Errand.act, play_map, Breaker.status, play_bind]
      rcases (b.load key).play s with ⟨_ | r, s₁⟩ <;> rfl
  | snapshot => rw [Errand.act, play_map]
  | resetIn =>
      rw [Errand.act, play_map, Breaker.resetIn, play_bind]
      rcases (b.load key).play s with ⟨_ | r, s₁⟩
      · rfl
      · dsimp only
        rw [play_bind_ok s₁ (play_now s₁), play_ofTime]
  | force target => exact absurd rfl (hm target)

theorem force (h : s.Tidy t key) (b : Breaker) (target : Status) :
    (((Errand.force target).act b key).play s).2.Tidy t key := by
  obtain ⟨x, hx, hold⟩ := h.stored
  obtain ⟨out, s₁, hplay, hover⟩ := b.overwriteOnce_overwritten key target h.quiet
  cases hover with
  | failed _ hl =>
      rw [Errand.act, play_bind_error s hplay]
      exact h.leads hl fun _ hr => by cases hr
  | @stored y r e _ hy hload hforced hl =>
      rw [hx] at hy
      cases hy
      have hnext : e.next.Tidy t :=
        (h.carries b).next ((h.carries b).forced ((h.carries b).loaded hload hold) hforced)
      have h₁ : s₁.Tidy t key := h.leads hl fun r' hr' => by
        cases hr'
        exact hnext
      obtain ⟨told, s₂, hconfirm, -, hl'⟩ := b.confirm_leads key target r.status s₁
      have h₂ : s₂.Tidy t key := h₁.leads hl' fun _ hr => by cases hr
      rw [Errand.act, play_bind_ok s hplay]
      dsimp only
      rw [play_bind, hconfirm]
      cases told <;> exact h₂

theorem errand (h : s.Tidy t key) (b : Breaker) (m : Errand) :
    ((m.act b key).play s).2.Tidy t key := by
  by_cases hm : ∀ target, m ≠ .force target
  · obtain ⟨s₁, hload, hl⟩ := b.load_leads h.quiet key
    rw [play_act_load m hm, hload]
    exact h.leads hl fun _ hr => by cases hr
  · obtain ⟨target, rfl⟩ : ∃ target, m = .force target := by
      by_contra hn
      exact hm fun target ht => hn ⟨target, ht⟩
    exact h.force b target

theorem call (h : s.Tidy t key) (b : Breaker) (result : Except Failure Json) :
    ((Visit.still b result).run key s).2.Tidy t key := by
  let v := Visit.still b result
  obtain ⟨x, hx, hold⟩ := h.stored
  have hclock : SameClock s (v.entry key s).2 := v.sameClock_entry key s
  rcases hentry : v.entry key s with ⟨out, s₁⟩
  rw [hentry] at hclock
  have hentered : EnteredCall b key x s out s₁ := entered_of_play h.quiet hx hentry
  obtain ⟨hstored, hopening⟩ := (h.carries b).entered hentered hx hold
  obtain ⟨-, rs, hg, hcurrent⟩ := hentered.gains
  have hx₁ := hg.store.lookup hx
  have hold₁ : ∀ r, rs.head?.or x = some r → r.Tidy t := fun r hr => hstored r (by rw [hx₁, hr])
  have h₁ : s₁.Tidy t key := ⟨hg.quiet h.quiet, hclock.1.trans h.now, _, hx₁, hold₁⟩
  change (v.run key s).2.Tidy t key
  rw [Visit.run, hentry]
  rcases out with f | o | y
  · exact h₁
  · have hending : v.ending key s = s₁ := congrArg Prod.snd hentry
    rw [hending]
    have hkept := keeps_conclude b key sameClock_steady o result s₁
    rcases hplay : (b.conclude key o result).play s₁ with ⟨out, s₂⟩
    rw [hplay] at hkept
    have ho := hcurrent o rfl
    have hcon := concluded_of_play h₁.quiet hx₁ hplay
    obtain ⟨-, rs', hg', -⟩ := hcon.gains ho.version
    have hx₂ := hg'.store.lookup hx₁
    have hstored₂ : ∀ r, rs'.head?.or (rs.head?.or x) = some r → r.Tidy t := fun r hr =>
      (h₁.carries b).concluded hcon ho.version hx₁ ho.recorded ho.admits (hopening o rfl) hold₁
        (by rw [hx₂, hr])
    change ((b.conclude key o result).play s₁).2.Tidy t key
    rw [hplay]
    exact ⟨hg'.quiet h₁.quiet, hkept.1.trans h₁.now, _, hx₂, hstored₂⟩
  · exact h₁

theorem afterAll (h : s.Tidy t key) (b : Breaker) (cs : List Chore) :
    (Chore.afterAll b key s cs).Tidy t key := by
  induction cs generalizing s with
  | nil => exact h
  | cons c cs ih =>
      cases c with
      | errand m => exact ih (h.errand b m)
      | call result => exact ih (h.call b result)

theorem loaded (h : s.Tidy t key) (hspans : b.Spans t) : ∃ x r, s.store.lookup key = .ok x ∧
    b.loaded s.now (.ok x) = .ok r ∧ r.Tidy t := by
  obtain ⟨x, hx, hold⟩ := h.stored
  have hload : ∃ r, b.loaded s.now (.ok x) = .ok r := by
    cases x with
    | some r => exact ⟨r, rfl⟩
    | none =>
        obtain ⟨u, hu⟩ := hspans.windowEnd
        rw [h.now, Breaker.loaded, Record.entering, hu]
        exact ⟨_, rfl⟩
  obtain ⟨r, hr⟩ := hload
  exact ⟨x, r, hx, hr, (h.carries b).loaded hr hold⟩

theorem answers (h : s.Tidy t key) (hspans : b.Spans t) (hb : b.Polite) (m : Errand) :
    ∃ a, ((m.act b key).play s).1 = .ok a := by
  obtain ⟨x, r, hx, hr, hd, -⟩ := h.loaded hspans
  rw [← h.now] at hspans hd
  have hended := Errand.ended_act h.quiet hx hr hspans m
  generalize ((m.act b key).play s).1 = out at hended
  cases hended with
  | answered ha => exact ⟨_, rfl⟩
  | interrupted _ hn => exact absurd hb hn
  | undated _ _ hn => exact absurd hd hn

theorem handles (h : s.Tidy t key) (hspans : b.Spans t) (result : Except Failure Json) :
    ∃ x, s.store.lookup key = .ok x ∧ (Visit.still b result).Handled key s x := by
  obtain ⟨x, r, hx, hr, hd, hcounted⟩ := h.loaded hspans
  let v := Visit.still b result
  have hclock : SameClock s (v.entry key s).2 := v.sameClock_entry key s
  rw [← h.now] at hspans hd
  have hending : (v.ending key s).now = s.now := hclock.1
  have htended : v.Tended key s :=
    ⟨id, id, ⟨true, hending ▸ Instant.reaches_self _⟩, hending ▸ hspans⟩
  refine ⟨x, hx, ?_⟩
  cases Visit.replied_of_loaded (v := v) h.quiet hx hr hspans htended with
  | handled hv => exact hv
  | undated hn _ => exact absurd hd hn
  | unweighed _ hn _ => exact absurd (Record.finiteShare_of_counted hcounted) hn
  | lost _ hn _ _ => exact absurd (Record.finiteShare_of_counted hcounted) hn

end Scene.Tidy

end KeyedBreaker
