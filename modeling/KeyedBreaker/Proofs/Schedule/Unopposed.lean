import KeyedBreaker.Proofs.Breaker.Announced
import KeyedBreaker.Proofs.Schedule.Mutex
import KeyedBreaker.Proofs.Schedule.NoLostUpdate

namespace KeyedBreaker

open Act

def Event.triedVersion? (key : String) : Event → Option Int
  | .storeWrite k v => if k = key then some v else none
  | _ => none

theorem filterMap_tried (key k : String) (rs : List Record) :
    (tried k rs).filterMap (Event.triedVersion? key) =
      if k = key then rs.map fun r => r.version - 1 else [] := by
  rw [tried, List.filterMap_map]
  split
  · subst k
    rw [← List.filterMap_eq_map]
    refine List.filterMap_congr fun r _ => ?_
    exact if_pos rfl
  · rename_i hk
    exact List.filterMap_eq_nil_iff.2 fun r _ => if_neg hk

namespace Scene

/-- Every write that was tried was stored. -/
structure Unopposed (s : Scene) : Prop where
  tries : ∀ e ∈ s.tries, ∃ key v, e = .storeWrite key v
  stored : ∀ key, s.tries.filterMap (Event.triedVersion? key) =
    (s.store.history key).map fun x => Record.versionOf x - 1

variable {s s' : Scene} {key : String} {rs : List Record}

theorem Gains.unopposed (h : s.Gains key rs s') (hs : s.Unopposed) : s'.Unopposed where
  tries e he := by
    rw [h.tries] at he
    rcases List.mem_append.1 he with he | he
    · obtain ⟨r, -, rfl⟩ := List.mem_map.1 he
      exact ⟨_, _, rfl⟩
    · exact hs.tries e he
  stored k := by
    rw [h.tries, List.filterMap_append, hs.stored, filterMap_tried]
    by_cases hk : key = k
    · subst hk
      rw [if_pos rfl, h.store.history, List.map_append, List.map_map]
      rfl
    · rw [if_neg hk, h.store.history_of_ne (Ne.symm hk)]
      rfl

end Scene

def Stand.key? (st : Stand) : Option String :=
  match st.place, st.frames with
  | .acting op, _ => some op.key
  | .working, f :: _ | .atGate _, f :: _ => some f.key
  | _, _ => none

theorem Stand.occupies_of_key? {st : Stand} {key : String} (h : st.key? = some key) :
    st.occupies key ≠ 0 := by
  obtain ⟨place, frames⟩ := st
  have hhead : ∀ f fs, frames = f :: fs → some f.key = some key →
      (⟨place, frames⟩ : Stand).occupies key ≠ 0 := by
    rintro f fs rfl hf
    cases hf
    rw [Schedule.occupies_cons, if_pos rfl]
    exact Nat.succ_ne_zero _
  cases place with
  | acting op =>
      cases h
      rw [Schedule.occupies_acting, if_pos rfl]
      exact Nat.succ_ne_zero _
  | working | atGate =>
      cases frames with
      | nil => cases h
      | cons f fs => exact hhead f fs rfl h
  | _ => cases h

def Frame.Current (σ : Scene) (f : Frame) : Prop :=
  ∃ x, σ.store.lookup f.key = .ok x ∧ f.opening.Current x ∧
    f.opening.record.mark = Record.markOf x

theorem Frame.Current.of_lookup {σ σ' : Scene} {f g : Frame} (h : f.Current σ)
    (hkey : g.key = f.key) (hopening : g.opening = f.opening)
    (hlookup : σ'.store.lookup f.key = σ.store.lookup f.key) : g.Current σ' := by
  obtain ⟨x, hx, hc⟩ := h
  exact ⟨x, by rw [hkey, hlookup, hx], hopening ▸ hc⟩

namespace Turn

variable {p : Breaker → Prop} {σ σ' : Scene} {st st' : Stand} {key : String}

theorem key_ne_of_acting {op : Operation} {fs : List Frame} {g : Frame}
    (h : ∀ key, (⟨.acting op, fs⟩ : Stand).occupies key ≤ 1) (hg : g ∈ fs) : g.key ≠ op.key := by
  intro he
  have hpos : 0 < fs.countP (·.key = op.key) :=
    List.countP_pos_iff.2 ⟨g, hg, decide_eq_true he⟩
  have hle := h op.key
  rw [Schedule.occupies_acting, if_pos rfl] at hle
  omega

theorem key_ne_of_cons {q : Place} {f g : Frame} {fs : List Frame}
    (h : ∀ key, (⟨q, f :: fs⟩ : Stand).occupies key ≤ 1) (hg : g ∈ fs) : g.key ≠ f.key := by
  intro he
  have hpos : 0 < fs.countP (·.key = f.key) :=
    List.countP_pos_iff.2 ⟨g, hg, decide_eq_true he⟩
  have hle := h f.key
  rw [Schedule.occupies_cons, if_pos rfl, Stand.occupies] at hle
  dsimp only at hle
  omega

/-- What a turn stores: records under the key at most for which its task acts; and the calls whose
functions are running afterwards are those that were and have other keys, or know what is stored. -/
structure Stores (σ : Scene) (st : Stand) (σ' : Scene) (st' : Stand) (key : String)
    (rs : List Record) : Prop where
  gains : σ.Gains key rs σ'
  acts : rs ≠ [] → st.key? = some key
  frames : ∀ g ∈ st'.frames, (∃ f ∈ st.frames, g.key = f.key ∧ g.opening = f.opening) ∧
    (rs = [] ∨ g.key ≠ key) ∨ g.Current σ'

theorem stores_of_idle (h : σ.Idle σ')
    (hframes : ∀ g ∈ st'.frames, ∃ f ∈ st.frames, g.key = f.key ∧ g.opening = f.opening) :
    Stores σ st σ' st' "" [] where
  gains := h.gains ""
  acts hne := absurd rfl hne
  frames g hg := .inl ⟨hframes g hg, .inl rfl⟩

theorem stores_of_acted (op : Operation) {fs : List Frame} {rs : List Record}
    (hone : ∀ key, (⟨.acting op, fs⟩ : Stand).occupies key ≤ 1) (hg : σ.Gains op.key rs σ')
    (hframes : st'.frames = fs) : Stores σ ⟨.acting op, fs⟩ σ' st' op.key rs where
  gains := hg
  acts _ := rfl
  frames g hmem := by
    rw [hframes] at hmem
    exact .inl ⟨⟨g, hmem, rfl, rfl⟩, .inr (key_ne_of_acting hone hmem)⟩

theorem exists_stores (h : Turn σ st σ' st') (hq : σ.Quiet) (hm : σ.store.hasLocks = true)
    (hst : st.Grounded p σ) (hone : ∀ key, st.occupies key ≤ 1)
    (hcurrent : ∀ f ∈ st.frames, f.Current σ) : ∃ key rs, Stores σ st σ' st' key rs := by
  have hsame : ∀ g ∈ st.frames, ∃ f ∈ st.frames, g.key = f.key ∧ g.opening = f.opening :=
    fun g hg => ⟨g, hg, rfl, rfl⟩
  cases h with
  | plays ha =>
      exact ⟨_, _, stores_of_idle (Step.act?_isIdle ha (hst.obeys.starting rfl).self σ hq) hsame⟩
  | @opens _ b k w inner fs o hp =>
      obtain ⟨x, hx⟩ := Store.lookup_of_hasLocks hm k
      obtain ⟨rs, hg, hc, hm⟩ := (Breaker.entered_of_play hq hx hp).opened
      refine ⟨k, rs, hg, fun _ => rfl, fun g hmem => ?_⟩
      rcases List.mem_cons.1 hmem with rfl | hmem
      · exact .inr ⟨_, hg.store.lookup hx, hc, hm⟩
      · exact .inl ⟨⟨g, hmem, rfl, rfl⟩, .inr (key_ne_of_acting hone hmem)⟩
  | @ends _ b k w inner fs v hp | @breaks _ b k w inner fs f hp =>
      obtain ⟨x, hx⟩ := Store.lookup_of_hasLocks hm k
      obtain ⟨-, rs, hg, -⟩ := (Breaker.entered_of_play hq hx hp).gains
      exact ⟨k, rs, stores_of_acted (.call b k w inner) hone hg rfl⟩
  | @forces _ b k target attempt fs previous r hp =>
      obtain ⟨out, s', hc, -, hl⟩ := Breaker.confirm_leads _ _ _ _ _
      obtain ⟨-, rs, hg⟩ := (Breaker.overwritten_of_play hq hp).gains
      rw [hc]
      exact ⟨k, _, stores_of_acted (.force b k target attempt) hone (hg.trans hl.gains) rfl⟩
  | retries hp hf =>
      cases Breaker.overwritten_of_play hq hp with
      | failed hf' => rw [hf'] at hf; cases hf
  | @fails _ b k target attempt fs f hp =>
      obtain ⟨-, rs, hg⟩ := (Breaker.overwritten_of_play hq hp).gains
      exact ⟨k, rs, stores_of_acted (.force b k target attempt) hone hg rfl⟩
  | @nests f fs step inner hi =>
      refine ⟨_, _, stores_of_idle (.refl σ) fun g hg => ?_⟩
      rcases List.mem_cons.1 hg with rfl | hg
      · exact ⟨f, List.mem_cons_self, rfl, rfl⟩
      · exact ⟨g, List.mem_cons_of_mem _ hg, rfl, rfl⟩
  | @concludes q f fs result hends =>
      obtain ⟨x, hx, hc, -⟩ := hcurrent f List.mem_cons_self
      obtain ⟨-, rs, hg, -⟩ := (Breaker.concluded_of_play hq hx rfl).gains hc.version
      refine ⟨f.key, rs, hg, fun _ => ?_, fun g hmem => .inl
        ⟨⟨g, List.mem_cons_of_mem _ hmem, rfl, rfl⟩, .inr (key_ne_of_cons hone hmem)⟩⟩
      obtain ⟨rfl, -⟩ | ⟨⟨gate, rfl⟩, -⟩ := hends <;> rfl
  | resumes =>
      refine ⟨_, _, stores_of_idle (Scene.idle_seeing (fun e he => ?_) σ) hsame⟩
      rw [List.mem_singleton.1 he]
      exact ⟨rfl, rfl⟩
  | _ => exact ⟨_, _, stores_of_idle (.refl σ) hsame⟩

end Turn

namespace Schedule

variable {s : Schedule}

structure Unopposed (s : Schedule) : Prop extends Guarded s where
  scene : s.scene.Unopposed
  current : ∀ st ∈ s.stands, ∀ f ∈ st.frames, f.Current s.scene

theorem Guarded.occupies_le_one (h : s.Guarded) {st : Stand} (hst : st ∈ s.stands) (key : String) :
    st.occupies key ≤ 1 := by
  obtain ⟨i, hi⟩ := List.getElem?_of_mem hst
  rw [h.exclusive.held key i st hi]
  split <;> decide

theorem Unopposed.exists_stores (h : s.Unopposed) {i : Nat} {st st' : Stand}
    (hi : s.stands[i]? = some st) (hturn : Turn s.scene st s.tick.scene st') :
    ∃ key rs, Turn.Stores s.scene st s.tick.scene st' key rs :=
  have hmem := List.mem_of_getElem? hi
  hturn.exists_stores h.grounded.scene h.hasLocks (h.grounded.stands st hmem)
    (h.toGuarded.occupies_le_one hmem) (h.current st hmem)

theorem Unopposed.tick (h : s.Unopposed) : s.tick.Unopposed := by
  refine ⟨h.toGuarded.tick, ?_, ?_⟩
  · rcases s.tick_moves with ⟨hscene, -, -⟩ | ⟨i, st, -, hi, st', hturn, -⟩
    · exact hscene ▸ h.scene
    · obtain ⟨key, rs, hs⟩ := h.exists_stores hi hturn
      exact hs.gains.unopposed h.scene
  · rcases s.tick_moves with ⟨hscene, hstands, -⟩ | ⟨i, st, -, hi, st', hturn, hstands⟩
    · rw [hstands, hscene]
      exact h.current
    · obtain ⟨key, rs, hs⟩ := h.exists_stores hi hturn
      have hlookup : ∀ {k : String}, rs = [] ∨ k ≠ key →
          s.tick.scene.store.lookup k = s.scene.store.lookup k := by
        rintro k (rfl | hk)
        · rw [hs.gains.store.lookup_nil]
        · exact hs.gains.store.lookup_of_ne hk
      rw [hstands]
      intro st₁ hst₁ g hg
      obtain ⟨j, hj⟩ := List.getElem?_of_mem hst₁
      by_cases hij : i = j
      · subst hij
        rw [List.getElem?_set_self (List.getElem?_eq_some_iff.1 hi).1] at hj
        cases hj
        rcases hs.frames g hg with ⟨⟨f, hf, hkey, hopening⟩, hother⟩ | hc
        · exact (h.current st (List.mem_of_getElem? hi) f hf).of_lookup hkey hopening
            (hlookup (hkey ▸ hother))
        · exact hc
      · rw [List.getElem?_set_ne hij] at hj
        refine (h.current st₁ (List.mem_of_getElem? hj) g hg).of_lookup rfl rfl (hlookup ?_)
        by_contra hn
        obtain ⟨hrs, hkey⟩ := not_or.1 hn
        have hocc := occupies_of_mem hg
        rw [not_not.1 hkey] at hocc
        exact hij (h.toGuarded.unique hi hj (Stand.occupies_of_key? (hs.acts hrs)) hocc)

theorem Unopposed.add (h : s.Unopposed) {step : Step}
    (hstep : step.Everywhere (Step.Undisturbed fun _ => True)) : (s.add step).Unopposed := by
  refine ⟨h.toGuarded.add hstep, h.scene, fun st hst => ?_⟩
  rw [stands_add] at hst
  rcases List.mem_append.1 hst with hst | hst
  · exact h.current st hst
  · rw [List.mem_singleton.1 hst]
    exact fun _ hf => absurd hf List.not_mem_nil

theorem Unopposed.after (h : s.Unopposed) {ms : List Move}
    (hsteps : ∀ step, .submit step ∈ ms → step.Everywhere (Step.Undisturbed fun _ => True)) :
    (s.after ms).Unopposed := by
  refine after_induction (fun s m h hm => ?_) h hsteps
  cases m with
  | submit step => exact h.add (hm step rfl)
  | turn => exact h.tick

theorem unopposed_atRest (t : Instant) : (atRest t (.memory [])).Unopposed :=
  ⟨guarded_atRest t [], ⟨fun _ he => absurd he List.not_mem_nil, fun _ => rfl⟩,
    fun _ hst => absurd hst List.not_mem_nil⟩

end Schedule

end KeyedBreaker
