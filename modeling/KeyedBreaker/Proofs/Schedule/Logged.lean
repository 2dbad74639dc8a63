import KeyedBreaker.Proofs.Schedule.Deeds

namespace KeyedBreaker

open Act

theorem Scene.Agree.showing {key : String} {s τ : Scene} (h : s.Agree key τ) :
    s.Agree key (τ.showing s.reading) := ⟨rfl, rfl, h.history, h.quiet, h.hasLocks⟩

inductive Underway (σ : Scene) (key : String) (i : Nat) (st : Stand) : List Deed → Prop
  | ready {op ds} : st.place = .acting op → op.key = key →
      Underway σ key i st (⟨i, op, .ready⟩ :: ds)
  | running {f w inner r ds} : f ∈ st.frames → f.key = key →
      ((Operation.call f.breaker key w inner).enter.play ((σ.replay ds).showing r)).1 =
        .ok (some f.opening) →
      Underway σ key i st (⟨i, .call f.breaker key w inner, .running r⟩ :: ds)

/-- For the key the task stands where it stood: it has no operation that acts, and the calls whose
functions are running are the same. -/
structure Stand.Rests (key : String) (st st' : Stand) : Prop where
  before : ∀ op, st.place = .acting op → op.key ≠ key
  after : ∀ op, st'.place = .acting op → op.key ≠ key
  kept : ∀ f ∈ st.frames, f.key = key → ∃ inner, { f with inner } ∈ st'.frames
  came : ∀ f ∈ st'.frames, f.key = key → ∃ g ∈ st.frames, g.key = key

theorem Turn.rests {σ σ' : Scene} {st st' : Stand} {key : String} (h : Turn σ st σ' st')
    (hkey : st.key? ≠ some key) (hop : ∀ op, st'.place = .acting op → op.key ≠ key) :
    st.Rests key st' := by
  have hbefore : ∀ op, st.place = .acting op → op.key ≠ key := by
    obtain ⟨place, frames⟩ := st
    rintro op rfl hk
    exact hkey (congrArg some hk)
  have hsame : st'.frames = st.frames → st.Rests key st' := fun he =>
    ⟨hbefore, hop, fun f hf _ => ⟨f.inner, he ▸ hf⟩, fun f hf hk => ⟨f, he ▸ hf, hk⟩⟩
  cases h with
  | @opens b k w inner fs o hp =>
      refine ⟨hbefore, hop, fun f hf _ => ⟨f.inner, List.mem_cons_of_mem _ hf⟩, fun f hf hk => ?_⟩
      rcases List.mem_cons.1 hf with rfl | hf
      · exact absurd (congrArg some hk) hkey
      · exact ⟨f, hf, hk⟩
  | @nests f fs step inner hi =>
      have hne : f.key ≠ key := fun hk => hkey (congrArg some hk)
      refine ⟨hbefore, hop, fun g hg hk => ?_, fun g hg hk => ?_⟩
      · rcases List.mem_cons.1 hg with rfl | hg
        · exact absurd hk hne
        · exact ⟨g.inner, List.mem_cons_of_mem _ hg⟩
      · rcases List.mem_cons.1 hg with rfl | hg
        · exact absurd hk hne
        · exact ⟨g, List.mem_cons_of_mem _ hg, hk⟩
  | @concludes p f fs result hends =>
      have hne : f.key ≠ key := by
        obtain ⟨rfl, -⟩ | ⟨⟨gate, rfl⟩, -⟩ := hends <;> exact fun hk => hkey (congrArg some hk)
      refine ⟨hbefore, hop, fun g hg hk => ?_, fun g hg hk => ⟨g, List.mem_cons_of_mem _ hg, hk⟩⟩
      rcases List.mem_cons.1 hg with rfl | hg
      · exact absurd hk hne
      · exact ⟨g.inner, hg⟩
  | _ => exact hsame rfl

theorem Stand.rests_of_goesOn {key : String} {st st' : Stand} {f : Frame} {fs : List Frame}
    {inner : List Step} (hst : st.frames = f :: fs) (hst' : st'.frames = { f with inner } :: fs)
    (hbefore : ∀ op, st.place ≠ .acting op) (hafter : ∀ op, st'.place ≠ .acting op) :
    st.Rests key st' := by
  refine ⟨fun op hp => absurd hp (hbefore op), fun op hp => absurd hp (hafter op),
    fun g hg _ => ?_, fun g hg hk => ?_⟩
  · rw [hst] at hg
    rw [hst']
    rcases List.mem_cons.1 hg with rfl | hg
    · exact ⟨inner, List.mem_cons_self⟩
    · exact ⟨g.inner, List.mem_cons_of_mem _ hg⟩
  · rw [hst'] at hg
    rw [hst]
    rcases List.mem_cons.1 hg with rfl | hg
    · exact ⟨f, List.mem_cons_self, hk⟩
    · exact ⟨g, List.mem_cons_of_mem _ hg, hk⟩

namespace Schedule

variable {σ : Scene} {key : String} {s : Schedule} {ds : List Deed}

/-- The deeds noted under a key tell what is stored there, and who has the lock. -/
structure Logged (σ : Scene) (key : String) (s : Schedule) (ds : List Deed) : Prop where
  history : (σ.replay ds).store.history key = s.scene.store.history key
  quiet : (σ.replay ds).Quiet
  hasLocks : (σ.replay ds).store.hasLocks = true
  held : ∀ i st, s.stands[i]? = some st → st.occupies key ≠ 0 → Underway σ key i st ds
  free : (∀ st ∈ s.stands, st.occupies key = 0) → ∀ d ∈ ds, d.isOver = true
  past : ∀ d ∈ ds.tail, d.isOver = true

section

variable {i : Nat} {st st' : Stand} (hs : s.Guarded) (hst : s.stands[i]? = some st)
  (hstands : s.tick.stands = s.stands.set i st')

include hst hstands in
theorem stand_of_turn : s.tick.stands[i]? = some st' := by
  rw [hstands, List.getElem?_set_self (List.getElem?_eq_some_iff.1 hst).1]

include hstands in
theorem stand_of_other {j : Nat} (h : i ≠ j) : s.tick.stands[j]? = s.stands[j]? := by
  rw [hstands, List.getElem?_set_ne h]

include hs hst hstands

theorem Guarded.only (hocc : st.occupies key ≠ 0) {j : Nat} {st₁ : Stand}
    (hj : s.tick.stands[j]? = some st₁) (hocc' : st₁.occupies key ≠ 0) : i = j ∧ st₁ = st' := by
  by_cases hij : i = j
  · subst hij
    rw [stand_of_turn hst hstands] at hj
    exact ⟨rfl, (Option.some.inj hj).symm⟩
  · rw [stand_of_other hstands hij] at hj
    exact absurd (hs.unique hst hj hocc hocc') hij

end

namespace Logged

variable {i : Nat} {st st' : Stand}

theorem agree (h : s.Logged σ key ds) (hs : s.Guarded) :
    s.scene.Agree key ((σ.replay ds).showing s.scene.reading) :=
  ⟨rfl, rfl, h.history, ⟨hs.grounded.scene, h.quiet⟩, hs.hasLocks, h.hasLocks⟩

theorem of_free (h : s.scene.Agree key ((σ.replay ds).showing s.scene.reading))
    (hfree : ∀ st ∈ s.stands, st.occupies key = 0) (hover : ∀ d ∈ ds, d.isOver = true) :
    s.Logged σ key ds where
  history := h.history
  quiet := h.quiet.2
  hasLocks := h.hasLocks.2
  held _ _ hst hocc := absurd (hfree _ (List.mem_of_getElem? hst)) hocc
  free _ := hover
  past d hd := hover d (List.mem_of_mem_tail hd)

theorem of_held (h : s.scene.Agree key ((σ.replay ds).showing s.scene.reading)) (hst : s.stands[i]? = some st)
    (hocc : st.occupies key ≠ 0)
    (honly : ∀ j st₁, s.stands[j]? = some st₁ → st₁.occupies key ≠ 0 → i = j ∧ st₁ = st)
    (hunderway : Underway σ key i st ds) (hpast : ∀ d ∈ ds.tail, d.isOver = true) :
    s.Logged σ key ds where
  history := h.history
  quiet := h.quiet.2
  hasLocks := h.hasLocks.2
  held j st₁ hj hocc' := by
    obtain ⟨rfl, rfl⟩ := honly j st₁ hj hocc'
    exact hunderway
  free hfree := absurd (hfree st (List.mem_of_getElem? hst)) hocc
  past := hpast

theorem rests (h : s.Logged σ key ds) (hst : s.stands[i]? = some st)
    (hstands : s.tick.stands = s.stands.set i st')
    (hhistory : s.tick.scene.store.history key = s.scene.store.history key)
    (hrests : st.Rests key st') : s.tick.Logged σ key ds := by
  have hocc : st'.occupies key ≠ 0 ↔ st.occupies key ≠ 0 := by
    rw [Stand.occupies_ne_zero, Stand.occupies_ne_zero]
    constructor
    · rintro (⟨op, hp, hk⟩ | ⟨f, hf, hk⟩)
      · exact absurd hk (hrests.after op hp)
      · exact .inr (hrests.came f hf hk)
    · rintro (⟨op, hp, hk⟩ | ⟨f, hf, hk⟩)
      · exact absurd hk (hrests.before op hp)
      · obtain ⟨inner, hf'⟩ := hrests.kept f hf hk
        exact .inr ⟨_, hf', hk⟩
  refine ⟨h.history.trans hhistory.symm, h.quiet, h.hasLocks, fun j st₁ hj hocc₁ => ?_,
    fun hfree => h.free fun st₁ hst₁ => ?_, h.past⟩
  · by_cases hij : i = j
    · subst hij
      rw [stand_of_turn hst hstands] at hj
      cases hj
      cases h.held i st hst (hocc.1 hocc₁) with
      | ready hp hk => exact absurd hk (hrests.before _ hp)
      | @running f w inner r ds hf hk henter =>
          obtain ⟨inner', hf'⟩ := hrests.kept f hf hk
          exact .running (f := { f with inner := inner' }) hf' hk henter
    · rw [stand_of_other hstands hij] at hj
      exact h.held j st₁ hj hocc₁
  · obtain ⟨j, hj⟩ := List.getElem?_of_mem hst₁
    by_cases hij : i = j
    · subst hij
      rw [hst] at hj
      cases hj
      have hfree' := hfree st' (List.mem_of_getElem? (stand_of_turn hst hstands))
      by_contra hne
      exact hocc.2 hne hfree'
    · exact hfree st₁ (List.mem_of_getElem? ((stand_of_other hstands hij).trans hj))

theorem tick_of_lock {op : Operation} (h : s.Logged σ key ds) (hs : s.Guarded) (hs' : s.tick.Guarded)
    (hst : s.stands[i]? = some st) (hturn : Turn s.scene st s.tick.scene st')
    (hstands : s.tick.stands = s.stands.set i st') (hop : st'.place = .acting op)
    (hk : op.key = key) : s.tick.Logged σ key (⟨i, op, .ready⟩ :: ds) := by
  obtain ⟨hscene, hframes, hp⟩ := hturn.requesting_or_queued hop
  have hst' := stand_of_turn hst hstands
  have hocc : st'.occupies key ≠ 0 := Stand.occupies_ne_zero.2 (.inl ⟨op, hop, hk⟩)
  have honly : ∀ j st₁, s.tick.stands[j]? = some st₁ → st₁.occupies key ≠ 0 → i = j ∧ st₁ = st' := by
    intro j st₁ hj hocc₁
    obtain rfl := hs'.unique hst' hj hocc hocc₁
    rw [hst'] at hj
    exact ⟨rfl, (Option.some.inj hj).symm⟩
  have hfree : ∀ st₁ ∈ s.stands, st₁.occupies key = 0 := by
    intro st₁ hst₁
    obtain ⟨j, hj⟩ := List.getElem?_of_mem hst₁
    by_contra hocc₁
    by_cases hij : i = j
    · -- a call of its own would be one more for which the task acts afterwards
      subst hij
      rw [hst] at hj
      cases hj
      obtain ⟨op', hp', hk'⟩ | ⟨f, hf, hkf⟩ := Stand.occupies_ne_zero.1 hocc₁
      · rcases hp with hp | hp <;> rw [hp] at hp' <;> cases hp'
      · obtain ⟨place, frames⟩ := st'
        cases hop
        rw [← hframes] at hf
        exact Turn.key_ne_of_acting (hs'.occupies_le_one (List.mem_of_getElem? hst')) hf
          (hkf.trans hk.symm)
    · exact hij (honly j st₁ ((stand_of_other hstands hij).trans hj) hocc₁).1
  refine of_held ?_ hst' hocc honly (.ready hop hk) (h.free hfree)
  rw [hscene]
  exact h.agree hs

theorem tick_of_acting {op : Operation} (h : s.Logged σ key ds) (hs : s.Guarded)
    (hst : s.stands[i]? = some st) (hturn : Turn s.scene st s.tick.scene st')
    (hstands : s.tick.stands = s.stands.set i st') (hop : st.place = .acting op)
    (hk : op.key = key) :
    s.tick.Logged σ key (ds.modifyHead (Deed.enter s.scene.reading st'.place.isWorking)) := by
  obtain ⟨place, fs⟩ := st
  cases hop
  have hmem := List.mem_of_getElem? hst
  have hst' := stand_of_turn hst hstands
  have hocc : (⟨.acting op, fs⟩ : Stand).occupies key ≠ 0 :=
    Stand.occupies_ne_zero.2 (.inl ⟨op, rfl, hk⟩)
  have honly : ∀ j st₁, s.tick.stands[j]? = some st₁ → st₁.occupies key ≠ 0 → i = j ∧ st₁ = st' :=
    fun _ _ hj hocc' => hs.only hst hstands hocc hj hocc'
  have hnone : ∀ f ∈ fs, f.key ≠ key := fun f hf hkf =>
    Turn.key_ne_of_acting (hs.occupies_le_one hmem) hf (hkf.trans hk.symm)
  cases h.held i _ hst hocc with
  | running hf hkf _ => exact absurd hkf (hnone _ hf)
  | @ready op' ds hop hk' =>
      cases hop
      subst hk
      obtain ⟨hout, hagree⟩ := op.local_enter _ _ (h.agree hs)
      obtain ⟨hscene, h'⟩ := hturn.enter_of_acting hs.grounded.scene
      rw [← hscene] at hagree
      rcases h' with ⟨b, k, w, inner, o, rfl, ho, rfl⟩ | ⟨result, rfl⟩
      · rw [ho] at hout
        change s.tick.Logged σ k
          (⟨i, .call b k w inner, .running s.scene.reading⟩ :: ds)
        have hunderway : Underway σ k i ⟨.working, ⟨b, k, o, inner, w.gate, w.result⟩ :: fs⟩
            (⟨i, .call b k w inner, .running s.scene.reading⟩ :: ds) :=
          .running (f := ⟨b, k, o, inner, w.gate, w.result⟩) List.mem_cons_self rfl hout
        refine of_held ?_ hst' ?_ honly hunderway h.past
        · exact hagree.showing
        · exact Stand.occupies_ne_zero.2 (.inr ⟨_, List.mem_cons_self, rfl⟩)
      · change s.tick.Logged σ op.key (⟨i, op, .over s.scene.reading none⟩ :: ds)
        refine of_free ?_ (fun st₁ hst₁ => ?_) fun d hd => ?_
        · exact hagree.showing
        · by_contra hocc₁
          obtain ⟨j, hj⟩ := List.getElem?_of_mem hst₁
          obtain ⟨-, rfl⟩ := honly j st₁ hj hocc₁
          obtain ⟨op', hp, -⟩ | ⟨f, hf, hkf⟩ := Stand.occupies_ne_zero.1 hocc₁
          · cases hp
          · exact hnone f hf hkf
        · rcases List.mem_cons.1 hd with rfl | hd
          · rfl
          · exact h.past d hd

theorem tick_of_ending {f : Frame} {fs : List Frame} {p : Place} {result : Except Failure Json}
    (h : s.Logged σ key ds) (hs : s.Guarded) (hst : s.stands[i]? = some ⟨p, f :: fs⟩)
    (hend : s.ending? = some (i, f, result)) (hk : f.key = key) :
    s.tick.Logged σ key (ds.modifyHead (Deed.exit s.scene.reading result)) := by
  obtain ⟨p', fs', s', hi, hp, hst', hscene', hstands', htick⟩ := conclude_of_ending hend
  rw [hst] at hst'
  cases hst'
  obtain ⟨hscene, hstands⟩ := conclude_seen (hstands' ▸ hst) result
  rw [← htick, hscene'] at hscene
  rw [← htick, hstands', hscene'] at hstands
  have hmem := List.mem_of_getElem? hst
  have hocc : (⟨p, f :: fs⟩ : Stand).occupies key ≠ 0 :=
    Stand.occupies_ne_zero.2 (.inr ⟨f, List.mem_cons_self, hk⟩)
  have hnone : ∀ g ∈ fs, g.key ≠ key := fun g hg hkg =>
    Turn.key_ne_of_cons (hs.occupies_le_one hmem) hg (hkg.trans hk.symm)
  cases h.held i _ hst hocc with
  | ready hop _ => rcases hp with rfl | ⟨gate, rfl⟩ <;> cases hop
  | @running g w inner r ds hg hkg henter =>
      obtain rfl : g = f := by
        rcases List.mem_cons.1 hg with rfl | hg
        · rfl
        · exact absurd hkg (hnone g hg)
      subst hk
      let d : Deed := ⟨i, .call g.breaker g.key w inner, .running r⟩
      change s.tick.Logged σ g.key (d.exit s.scene.reading result :: ds)
      obtain ⟨-, hagree⟩ := d.op.local_exit g.opening result _ _ (h.agree hs)
      have hexit : ((d.op.exit g.opening result).play s.scene).2 = s.tick.scene := by
        rw [hscene]
        exact congrArg Prod.snd (play_discard s.scene _)
      have hreplay : (d.exit s.scene.reading result).play (σ.replay ds) =
          ((d.op.exit g.opening result).play
            ((σ.replay (d :: ds)).showing s.scene.reading)).2 := Deed.play_exit rfl henter
      rw [hexit, ← hreplay] at hagree
      refine of_free ?_ (fun st₁ hst₁ => ?_) fun d' hd' => ?_
      · exact hagree.showing
      · by_contra hocc₁
        obtain ⟨j, hj⟩ := List.getElem?_of_mem hst₁
        obtain ⟨-, rfl⟩ := hs.only hst hstands hocc hj hocc₁
        obtain ⟨op', hp, -⟩ | ⟨g', hg', hkg'⟩ := Stand.occupies_ne_zero.1 hocc₁
        · cases hp
        · exact hnone g' hg' hkg'
      · rcases List.mem_cons.1 hd' with rfl | hd'
        · rfl
        · exact h.past d' hd'

theorem goesOn {f : Frame} {fs : List Frame} {p : Place} (h : s.Logged σ key ds) (hs : s.Guarded)
    (hi : s.ready.head? = some i) (hst : s.stands[i]? = some ⟨p, f :: fs⟩)
    (hturn : Turn s.scene ⟨p, f :: fs⟩ s.tick.scene st')
    (hstands : s.tick.stands = s.stands.set i st')
    (hp : p = .working ∨ ∃ gate, p = .atGate gate) (hk : f.key = key) :
    s.tick.Logged σ key (s.noted key ds) := by
  have hst' := stand_of_turn hst hstands
  rcases hturn.goesOn hp with ⟨a, ha⟩ | ⟨hscene, hacting, inner, hframes⟩
  · obtain ⟨result, hend⟩ := ending?_of_returns hi hst hp ⟨a, by rw [hst', ← ha]; rfl⟩
    rw [noted_of_ends hend hk]
    exact h.tick_of_ending hs hst hend hk
  · have hrests : (⟨p, f :: fs⟩ : Stand).Rests key st' := by
      refine Stand.rests_of_goesOn rfl hframes (fun op hop => ?_) hacting
      rcases hp with rfl | ⟨gate, rfl⟩ <;> cases hop
    have hend : s.ending? = none := by
      refine Option.eq_none_iff_forall_ne_some.2 fun ⟨j, g, result⟩ hend => ?_
      obtain ⟨p', fs', s', hj, -, hstand, -, hstands', htick⟩ := conclude_of_ending hend
      rw [hi] at hj
      cases hj
      rw [hst] at hstand
      cases hstand
      -- the frame of a call that ends goes, but it is still there
      have hgone := (conclude_seen (hstands' ▸ hst) result).2
      rw [← htick, hstands'] at hgone
      rw [stand_of_turn hst hgone] at hst'
      cases hst'
      exact absurd hframes (List.cons_ne_self _ _).symm
    rw [noted_of_rest hi hst hstands (fun _ _ _ he => by rw [hend] at he; cases he) hrests.before
      hrests.after]
    exact h.rests hst hstands (by rw [hscene]) hrests

/-- A turn keeps the deeds under a key. -/
theorem tick (h : s.Logged σ key ds) (hs : s.Unopposed) : s.tick.Logged σ key (s.noted key ds) := by
  rcases s.tick_moves with ⟨hscene, hstands, hidle⟩ | ⟨i, st, hi, hst, st', hturn, hstands⟩
  · rw [noted_of_halted hstands hidle]
    refine ⟨by rw [hscene]; exact h.history, h.quiet, h.hasLocks, ?_, ?_, h.past⟩ <;> rw [hstands]
    · exact h.held
    · exact h.free
  · by_cases hkey : st.key? = some key
    · obtain ⟨place, frames⟩ := st
      cases place with
      | acting op =>
          have hk : op.key = key := Option.some.inj hkey
          rw [noted_of_acts hi hst hstands rfl hk]
          exact h.tick_of_acting hs.toGuarded hst hturn hstands rfl hk
      | working =>
          cases frames with
          | nil => cases hkey
          | cons f fs =>
              exact h.goesOn hs.toGuarded hi hst hturn hstands (.inl rfl) (Option.some.inj hkey)
      | atGate gate =>
          cases frames with
          | nil => cases hkey
          | cons f fs =>
              exact h.goesOn hs.toGuarded hi hst hturn hstands (.inr ⟨gate, rfl⟩)
                (Option.some.inj hkey)
      | _ => cases hkey
    · have hhistory : s.tick.scene.store.history key = s.scene.store.history key := by
        obtain ⟨k, rs, hstores⟩ := hs.exists_stores hst hturn
        by_cases hrs : rs = []
        · rw [hrs] at hstores
          rw [hstores.gains.store.lookup_nil]
        · refine hstores.gains.store.history_of_ne fun hk => hkey ?_
          rw [hk]
          exact hstores.acts hrs
      by_cases htakes : ∃ op, st'.place = .acting op ∧ op.key = key
      · obtain ⟨op, hop, hk⟩ := htakes
        rw [noted_of_takes hi hst hstands (hturn.requesting_or_queued hop).2.2 hop hk]
        exact h.tick_of_lock hs.toGuarded hs.toGuarded.tick hst hturn hstands hop hk
      · have hrests := hturn.rests hkey fun op hop hk => htakes ⟨op, hop, hk⟩
        rw [noted_of_rest hi hst hstands (fun j f result hend hk => hkey ?_) hrests.before
          hrests.after]
        · exact h.rests hst hstands hhistory hrests
        · rw [(key?_of_ending hend hi hst).1, hk]

theorem add (h : s.Logged σ key ds) (step : Step) : (s.add step).Logged σ key ds := by
  have hnew : (⟨.starting step, []⟩ : Stand).occupies key = 0 := rfl
  refine ⟨h.history, h.quiet, h.hasLocks, fun i st hst hocc => ?_, fun hfree => h.free ?_, h.past⟩
  · rw [stands_add] at hst
    rcases Nat.lt_or_ge i s.stands.length with hlt | hge
    · rw [List.getElem?_append_left hlt] at hst
      exact h.held i st hst hocc
    · rw [List.getElem?_append_right hge] at hst
      rw [List.mem_singleton.1 (List.mem_of_getElem? hst)] at hocc
      exact absurd hnew hocc
  · rw [stands_add] at hfree
    exact fun st hst => hfree st (List.mem_append_left _ hst)

theorem after (h : s.Logged σ key ds) (hs : s.Unopposed) {ms : List Move}
    (hsteps : ∀ step, .submit step ∈ ms → step.Everywhere (Step.Undisturbed fun _ => True)) :
    (s.after ms).Logged σ key (s.deeds key ms ds) := by
  induction ms generalizing s ds with
  | nil => exact h
  | cons m ms ih =>
      have hms : ∀ step, .submit step ∈ ms → step.Everywhere (Step.Undisturbed fun _ => True) :=
        fun step hs => hsteps step (List.mem_cons_of_mem _ hs)
      have hs' : (s.after [m]).Unopposed := hs.after fun step hm =>
        hsteps step (List.mem_singleton.1 hm ▸ List.mem_cons_self)
      cases m with
      | submit step => exact ih (h.add step) hs' hms
      | turn => exact ih (h.tick hs) hs' hms

theorem atRest (t : Instant) (key : String) :
    (atRest t (.memory [])).Logged { now := t, store := .memory [] } key [] where
  history := rfl
  quiet _ := rfl
  hasLocks := rfl
  held _ _ hst := by cases hst
  free _ _ hd := absurd hd List.not_mem_nil
  past _ hd := absurd hd List.not_mem_nil

theorem holder_eq (h : s.Logged σ key ds) (hs : s.Guarded) :
    (s.locks key).holder = (ds.head?.filter (!·.isOver)).map (·.task) := by
  cases hholder : (s.locks key).holder with
  | none =>
      have hover := h.free fun st hst => by
        obtain ⟨i, hi⟩ := List.getElem?_of_mem hst
        exact hs.exclusive.occupies_of_free hi hholder
      cases ds with
      | nil => rfl
      | cons d ds =>
          rw [List.head?_cons, Option.filter_some, hover d List.mem_cons_self]
          rfl
  | some i =>
      have hlt := hs.exclusive.holder key i hholder
      have hi := List.getElem?_eq_getElem hlt
      have hocc : s.stands[i].occupies key ≠ 0 := by
        rw [hs.exclusive.held key i _ hi]
        exact (if_pos hholder).trans_ne Nat.one_ne_zero
      cases h.held i _ hi hocc <;> rfl

end Logged

end Schedule

end KeyedBreaker
