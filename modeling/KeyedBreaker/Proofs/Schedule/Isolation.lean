import KeyedBreaker.Proofs.Breaker.Break
import KeyedBreaker.Proofs.Schedule.Weathered

namespace KeyedBreaker

open Act

def Scene.Isolated (key : String) (σ : Scene) : Prop :=
  ∃ r, σ.store.lookup key = .ok (some r) ∧ r.status = .isolated

def Frame.Tracked (σ : Scene) (f : Frame) : Prop :=
  ∃ x, σ.store.lookup f.key = .ok x ∧ f.opening.record.version ≤ Record.versionOf x

/-- The store has passed by the version that a call knows. -/
def Frame.Passed (σ : Scene) (f : Frame) : Prop :=
  ∃ x, σ.store.lookup f.key = .ok x ∧ f.opening.record.version < Record.versionOf x

variable {p : Breaker → Prop} {σ σ' : Scene} {st st' : Stand} {key : String}

theorem Frame.Tracked.grows {k : String} {rs : List Record} {f : Frame} (h : f.Tracked σ)
    (hg : σ.store.Grows k rs σ'.store) : f.Tracked σ' := by
  obtain ⟨x, hx, hle⟩ := h
  obtain ⟨y, hy, hxy⟩ := hg.versionOf_le hx
  exact ⟨y, hy, hle.trans hxy⟩

theorem Frame.Passed.grows {k : String} {rs : List Record} {f : Frame} (h : f.Passed σ)
    (hg : σ.store.Grows k rs σ'.store) : f.Passed σ' := by
  obtain ⟨x, hx, hlt⟩ := h
  obtain ⟨y, hy, hxy⟩ := hg.versionOf_le hx
  exact ⟨y, hy, hlt.trans_le hxy⟩

theorem Frame.Tracked.passed {r : Record} {rs : List Record} {f : Frame} (h : f.Tracked σ)
    (hg : σ.store.Grows f.key (r :: rs) σ'.store) : f.Passed σ' := by
  obtain ⟨x, hx, hle⟩ := h
  have hy := hg.lookup hx
  have hv := hg.versionOf hx hy
  rw [List.length_cons, Nat.cast_succ] at hv
  exact ⟨_, hy, by omega⟩

namespace Breaker

variable {b : Breaker} {s s' : Scene} {r : Record}

theorem loaded_of_lookup {t : Instant} {x : Option Record} {r' : Record}
    (hr : s.store.lookup key = .ok (some r)) (hx : s.store.lookup key = .ok x)
    (hl : b.loaded t (.ok x) = .ok r') : r' = r := by
  rw [hr] at hx
  cases hx
  cases hl
  rfl

theorem Opened.of_shut {o : Opening} {permitted : Except Failure Unit} {rs : List Record}
    {ts : List (Status × Status)} (ho : Opened b key s (.ok (o, permitted)) rs ts)
    (hr : s.store.lookup key = .ok (some r)) (h : Shut s.now r) :
    rs = [] ∧ o.record = r ∧ ∃ f, permitted = .error f := by
  cases ho with
  | opened hx hl hadv =>
      obtain rfl := loaded_of_lookup hr hx hl
      cases hadv with
      | moved hc _ =>
          rw [change_of_shut h] at hc
          cases hc
      | still =>
          have hpermit : Record.permit b.config _ key s.now _ = (_, .error (reason key s.now _)) :=
            permit_of_shut h
          exact ⟨rfl, congrArg Prod.fst hpermit, _, congrArg Prod.snd hpermit⟩

/-- A call that meets an isolated circuit is turned away, and stores the record as it was or nothing. -/
theorem Called.isolated {w : Work} {out : Except Failure Stage} (h : Called b key w s out s')
    (hr : s.store.lookup key = .ok (some r)) (hs : r.status = .isolated) :
    s'.Isolated key ∧ s'.starts = s.starts ∧ ∀ o, out ≠ .ok (.running o) := by
  have hshut : Shut s.now r := .inl hs
  cases h with
  | unbegun ho hw =>
      have hsame : ∀ {ts}, s.Weathers key [] ts s' → s'.Isolated key :=
        fun hw => ⟨r, hw.store.lookup hr, hs⟩
      refine ⟨?_, hw.starts, fun _ ho => by cases ho⟩
      cases ho with
      | unloaded => exact hsame hw
      | unadvanced hx hl hadv =>
          obtain rfl := loaded_of_lookup hr hx hl
          cases hadv with
          | failed => exact hsame hw
          | interrupted hc _ =>
              rw [change_of_shut hshut] at hc
              cases hc
  | rejected ho hw hended hw' =>
      obtain ⟨rfl, hrecord, -⟩ := ho.of_shut hr hshut
      rw [hrecord] at hended
      refine ⟨?_, hw'.starts.trans hw.starts, fun _ => ended_ne_running⟩
      have hx := hw.store.lookup hr
      cases hended with
      | dropped => exact ⟨r, hw'.store.lookup hx, hs⟩
      | kept hren _ =>
          rw [renewed_of_shut hshut] at hren
          cases hren
          exact ⟨r.next, hw'.store.lookup_cons, hs⟩
  | failed ho | running ho =>
      obtain ⟨-, -, f, hf⟩ := ho.of_shut hr hshut
      cases hf

end Breaker

namespace Turn

theorem tracked (h : Turn σ st σ' st') (hst : st.Obeys (Step.ByBreakers p))
    (hframes : ∀ f ∈ st.frames, f.Tracked σ) : ∀ f ∈ st'.frames, f.Tracked σ' := by
  obtain ⟨k, rs, hg⟩ := (h.course hst).grows
  intro f' hf'
  rcases h.mem_frames hf' with ⟨f, hf, inner, rfl⟩ | ⟨b, key, w, inner, o, -, hp, rfl⟩
  · exact (hframes f hf).grows hg
  · obtain ⟨-, rs, -, ho⟩ := (Breaker.called_of_play hp).grows
    obtain ⟨y, hy, hv⟩ := ho o rfl
    exact ⟨y, hy, hv.le⟩

/-- A turn that completes neither a reset nor a trip of an isolated circuit leaves it isolated and starts
no function for it. -/
theorem Course.isolated (h : Course p σ st σ') (hσ : σ.Isolated key)
    (hpassed : ∀ f ∈ st.frames, f.key = key → f.Passed σ)
    (hclosed : ¬ st.completes key .closed σ = true) (hopen : ¬ st.completes key .open σ = true) :
    σ'.Isolated key ∧ σ'.starts.count key = σ.starts.count key := by
  have hsame : σ'.store.lookup key = σ.store.lookup key → σ'.Isolated key := by
    intro he
    obtain ⟨r, hr, hs⟩ := hσ
    exact ⟨r, he.trans hr, hs⟩
  cases h with
  | idle hstore hstarts _ => exact ⟨hsame (by rw [hstore]), by rw [hstarts]⟩
  | @calls b k w inner out _ _ _ hc =>
      by_cases hk : key = k
      · subst hk
        obtain ⟨r, hr, hs⟩ := hσ
        obtain ⟨hisolated, hstarts, -⟩ := hc.isolated hr hs
        exact ⟨hisolated, by rw [hstarts]⟩
      · obtain ⟨hstarts, rs, hg, -⟩ := hc.grows
        refine ⟨hsame (hg.lookup_of_ne hk), ?_⟩
        rcases hstarts with hstarts | hstarts <;> rw [hstarts]
        exact List.count_cons_of_ne (Ne.symm hk)
  | @forces b k target attempt out σ₁ rs ts hp hb hplay hforced hw _ =>
      refine ⟨?_, by rw [hw.starts]⟩
      by_cases hk : key = k
      · subst hk
        cases hforced with
        | failed => exact hsame (by rw [hw.store.lookup_nil])
        | @kept x r e hx hload hforced =>
            have hcompletes : st.completes key target σ = true :=
              Stand.completes_iff.2 ⟨b, attempt, _, σ₁, hp, hplay⟩
            obtain ⟨entered, hent, rfl⟩ := Breaker.forced_eq_ok hforced
            refine ⟨_, hw.store.lookup_cons, hent.status.trans ?_⟩
            cases target with
            | isolated => rfl
            | closed => exact absurd hcompletes hclosed
            | «open» => exact absurd hcompletes hopen
            | halfOpen => exact absurd rfl hb.2
      · exact hsame (hw.store.lookup_of_ne hk)
  | @concludes f fs result rs ts hfs _ _ hended hw =>
      refine ⟨?_, by rw [hw.starts]⟩
      by_cases hk : key = f.key
      · -- the version that the call knows is gone, so that nothing can have been kept
        obtain ⟨x, hx, hlt⟩ := hpassed f (hfs ▸ List.mem_cons_self) hk.symm
        cases hended with
        | dropped => exact hsame (by rw [hw.store.lookup_nil])
        | kept hren _ =>
            obtain ⟨y, hy, hv⟩ := hw.store.single
            rw [hx] at hy
            cases hy
            rw [Breaker.version_renewed hren, Record.version_settle] at hv
            omega
      · exact hsame (hw.store.lookup_of_ne hk)

theorem isolates (h : Turn σ st σ' st') (hs : st.completes key .isolated σ = true) :
    σ'.Isolated key ∧ st'.frames = st.frames ∧ ∃ r, σ.store.Grows key [r] σ'.store := by
  obtain ⟨b, attempt, v, σ₁, hp, hplay⟩ := Stand.completes_iff.1 hs
  obtain ⟨place, fs⟩ := st
  obtain rfl : place = .acting (.force b key .isolated attempt) := hp
  cases h with
  | @forces σ₂ _ _ _ _ _ previous _ hp =>
      obtain ⟨rs, hw, hforced⟩ := Breaker.forced_of_play hp
      obtain ⟨told, s₂, hc, hw'⟩ := b.confirm_weathers key .isolated previous σ₂
      rw [hc]
      cases hforced with
      | kept hx hload he =>
          obtain ⟨entered, hent, rfl⟩ := Breaker.forced_eq_ok he
          have hg := hw.store.trans hw'.store
          exact ⟨⟨_, hg.lookup_cons, hent.status⟩, rfl, _, hg⟩
  | retries hp => rw [hplay] at hp; cases hp
  | fails hp => rw [hplay] at hp; cases hp
  | concludes hp => rcases hp with ⟨hp, -⟩ | ⟨⟨gate, hp⟩, -⟩ <;> cases hp

end Turn

namespace Schedule

variable {s : Schedule} {ms : List Move}

/-- The task that is first in line completes an overwrite of the key with a status. -/
def Completes (key : String) (target : Status) (s : Schedule) : Prop :=
  ((s.ready.head?.bind fun i => s.stands[i]?).any (·.completes key target s.scene)) = true

instance (key : String) (target : Status) (s : Schedule) : Decidable (s.Completes key target) :=
  inferInstanceAs (Decidable (_ = true))

def Tracked (p : Breaker → Prop) (s : Schedule) : Prop :=
  s.Holds (fun _ => True) fun σ st => st.Obeys (Step.ByBreakers p) ∧ ∀ f ∈ st.frames, f.Tracked σ

theorem Tracked.move (h : s.Tracked p) {m : Move}
    (hm : ∀ step, m = .submit step → step.Everywhere (Step.ByBreakers p)) : (s.move m).Tracked p := by
  cases m with
  | submit step => exact h.add ⟨Stand.obeys_starting (hm step rfl), fun _ hf => absurd hf List.not_mem_nil⟩
  | turn =>
      refine h.tick fun st st' hst hturn => ⟨trivial, ?_, fun other hother => ?_⟩
      · exact ⟨hturn.obeys hst.1, hturn.tracked hst.1 hst.2⟩
      · obtain ⟨k, rs, hg⟩ := (hturn.course hst.1).grows
        exact ⟨hother.1, fun f hf => (hother.2 f hf).grows hg⟩

theorem Tracked.after (h : s.Tracked p)
    (hsteps : ∀ step, .submit step ∈ ms → step.Everywhere (Step.ByBreakers p)) :
    (s.after ms).Tracked p :=
  after_induction (fun _ _ h hm => h.move hm) h hsteps

/-- The circuit of the key is isolated, and no call of it can store anything any more. -/
def Sealed (p : Breaker → Prop) (key : String) (s : Schedule) : Prop :=
  s.Holds (·.Isolated key) fun σ st =>
    st.Obeys (Step.ByBreakers p) ∧ ∀ f ∈ st.frames, f.key = key → f.Passed σ

theorem completes_iff {key : String} {target : Status} {i : Nat} {st : Stand}
    (hi : s.ready.head? = some i) (hst : s.stands[i]? = some st) :
    s.Completes key target ↔ st.completes key target s.scene = true := by
  rw [Completes, hi, Option.bind_some, hst]
  exact Iff.rfl

theorem Tracked.sealed (h : s.Tracked p) (hs : s.Completes key .isolated) : s.tick.Sealed p key := by
  have hnext := h.move (m := .turn) (by simp)
  obtain ⟨st, hst, hcompletes⟩ := (Option.any_eq_true _ _).1 hs
  obtain ⟨i, hi, hst⟩ := Option.bind_eq_some_iff.1 hst
  obtain ⟨b, attempt, v, σ₁, hp, -⟩ := Stand.completes_iff.1 hcompletes
  have hbusy : ¬ st.Halted := by
    intro hn
    cases hn <;> cases hp
  obtain ⟨st', hturn, hstands⟩ := tick_of_head hi hst hbusy
  obtain ⟨hisolated, hframes, r, hg⟩ := hturn.isolates hcompletes
  refine ⟨hisolated, fun other hmem => ⟨(hnext.stands other hmem).1, fun f hf hk => ?_⟩⟩
  have htracked : f.Tracked s.scene := by
    rw [hstands] at hmem
    rcases List.mem_or_eq_of_mem_set hmem with hmem | rfl
    · exact (h.stands other hmem).2 f hf
    · exact (h.stands st (List.mem_of_getElem? hst)).2 f (hframes ▸ hf)
  exact htracked.passed (hk ▸ hg)

/-- A turn that completes neither a reset nor a trip of a sealed circuit leaves it sealed. -/
theorem Sealed.tick (h : s.Sealed p key) (hclosed : ¬ s.Completes key .closed)
    (hopen : ¬ s.Completes key .open) :
    s.tick.Sealed p key ∧ s.tick.scene.starts.count key = s.scene.starts.count key := by
  rcases s.tick_moves with ⟨hscene, hstands, -⟩ | ⟨i, st, hi, hst, st', hturn, hstands⟩
  · refine ⟨⟨?_, ?_⟩, by rw [hscene]⟩
    · rw [hscene]
      exact h.scene
    · rw [hstands, hscene]
      exact h.stands
  · obtain ⟨hobeys, hpassed⟩ := h.stands st (List.mem_of_getElem? hst)
    have hcourse := hturn.course hobeys
    rw [completes_iff hi hst] at hclosed hopen
    obtain ⟨hisolated, hstarts⟩ := hcourse.isolated h.scene hpassed hclosed hopen
    obtain ⟨k, rs, hg⟩ := hcourse.grows
    refine ⟨⟨hisolated, fun other hother => ?_⟩, hstarts⟩
    rw [hstands] at hother
    rcases List.mem_or_eq_of_mem_set hother with hother | rfl
    · obtain ⟨hobeys', hpassed'⟩ := h.stands other hother
      exact ⟨hobeys', fun f hf hk => (hpassed' f hf hk).grows hg⟩
    · refine ⟨hturn.obeys hobeys, fun f hf hk => ?_⟩
      rcases hturn.mem_frames hf with ⟨f₀, hf₀, inner, rfl⟩ | ⟨b, k, w, inner, o, -, hp, rfl⟩
      · exact (hpassed f₀ hf₀ hk).grows hg
      · -- an isolated circuit lets no function start
        obtain rfl : k = key := hk
        obtain ⟨r, hr, hs⟩ := h.scene
        obtain ⟨-, -, hrunning⟩ := (Breaker.called_of_play hp).isolated hr hs
        exact absurd rfl (hrunning o)

theorem Sealed.after (h : s.Sealed p key)
    (hsteps : ∀ step, .submit step ∈ ms → step.Everywhere (Step.ByBreakers p))
    (hunforced : s.AtTurns (fun s => ¬ s.Completes key .closed ∧ ¬ s.Completes key .open) ms) :
    (s.after ms).scene.Isolated key ∧
      (s.after ms).scene.starts.count key = s.scene.starts.count key := by
  induction ms generalizing s with
  | nil => exact ⟨h.scene, rfl⟩
  | cons m ms ih =>
      have hrest : ∀ step, .submit step ∈ ms → step.Everywhere (Step.ByBreakers p) :=
        fun step hs => hsteps step (List.mem_cons_of_mem _ hs)
      cases m with
      | submit step =>
          have hadd : (s.add step).Sealed p key :=
            h.add ⟨Stand.obeys_starting (hsteps step List.mem_cons_self), fun _ hf => by cases hf⟩
          exact ih hadd hrest hunforced
      | turn =>
          obtain ⟨⟨hclosed, hopen⟩, hunforced⟩ := hunforced
          obtain ⟨hnext, hstarts⟩ := h.tick hclosed hopen
          obtain ⟨hisolated, hstarts'⟩ := ih hnext hrest hunforced
          exact ⟨hisolated, hstarts'.trans hstarts⟩

/-- From the turn that completes an isolate on, the circuit stays isolated and no function is started for
its key, until a reset or a trip of the key completes: whatever the other operations on it are and
however they interleave, whatever calls were running before, whatever the clocks do and whatever faults
the store meets. -/
theorem isolated_until_forced {before during : List Move} (htasks : s.tasks = [])
    (hsteps : ∀ step, .submit step ∈ before ++ .turn :: during → step.Everywhere (Step.ByBreakers p))
    (hisolate : (s.after before).Completes key .isolated)
    (hunforced : (s.after before).tick.AtTurns
      (fun s => ¬ s.Completes key .closed ∧ ¬ s.Completes key .open) during) :
    (∃ r, ((s.after before).tick.after during).scene.store.lookup key = .ok (some r) ∧
        r.status = .isolated) ∧
      ((s.after before).tick.after during).scene.starts.count key =
        (s.after before).tick.scene.starts.count key := by
  have htracked : (s.after before).Tracked p :=
    Tracked.after (holds_of_no_tasks htasks trivial) fun step hs => hsteps step (List.mem_append_left _ hs)
  exact (htracked.sealed hisolate).after
    (fun step hs => hsteps step (List.mem_append_right _ (List.mem_cons_of_mem _ hs))) hunforced

def isolate : List Move := [.submit (.force {} "k" .isolated), .turn, .turn]

def callLater : List Move :=
  [.turn, .submit (.advance (Binary64.ofInt 1000)), .turn, .turn,
    .submit (.force { number := 1 } "k" .isolated), .turn, .turn, .turn, .turn,
    .submit (.call {} "k" {} []), .turn, .turn, .turn, .turn]

theorem isolated_until_forced_of_callLater :
    (∃ r, (((atRest beginning (.memory [])).after isolate).tick.after callLater).scene.store.lookup
        "k" = .ok (some r) ∧ r.status = .isolated) ∧
      (((atRest beginning (.memory [])).after isolate).tick.after callLater).scene.starts = [] := by
  have hsteps : ∀ step, .submit step ∈ isolate ++ .turn :: callLater →
      step.Everywhere (Step.ByBreakers fun _ => True) := by
    simp [isolate, callLater, Step.Everywhere, Step.EverywhereIn, Step.ByBreakers]
  have hunforced : ((atRest beginning (.memory [])).after isolate).tick.AtTurns
      (fun s => ¬ s.Completes "k" .closed ∧ ¬ s.Completes "k" .open) callLater := by
    simp only [callLater, AtTurns]
    decide +kernel
  exact ⟨(isolated_until_forced rfl hsteps (by decide +kernel) hunforced).1, by decide +kernel⟩

def tripLater : List Move :=
  [.turn, .submit (.force {} "k" .open), .turn, .turn, .turn, .turn,
    .submit (.advance (Binary64.ofInt 5)), .turn, .turn,
    .submit (.call {} "k" {} []), .turn, .turn, .turn]

/-- A trip leads out of isolation without any reset: the circuit is open then, and after the break it
lets a call through. -/
theorem trip_leaves_isolation :
    ((atRest beginning (.memory [])).after isolate).Completes "k" .isolated ∧
      ((atRest beginning (.memory [])).after isolate).tick.AtTurns
        (fun s => ¬ s.Completes "k" .closed) tripLater ∧
      ¬ (((atRest beginning (.memory [])).after isolate).tick.after
        (tripLater.take 6)).scene.Isolated "k" ∧
      (((atRest beginning (.memory [])).after isolate).tick.after tripLater).scene.starts = ["k"] := by
  refine ⟨by decide +kernel, ?_, ?_, by decide +kernel⟩
  · simp only [tripLater, AtTurns]
    decide +kernel
  · rintro ⟨r, hr, hs⟩
    have hopen : ((((atRest beginning (.memory [])).after isolate).tick.after
        (tripLater.take 6)).scene.store.lookup "k").toOption.join.map (·.status) = some .open := by
      decide +kernel
    rw [hr] at hopen
    cases hs.symm.trans (Option.some.inj hopen)

end Schedule

end KeyedBreaker
