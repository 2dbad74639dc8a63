import KeyedBreaker.Proofs.Breaker.Onward
import KeyedBreaker.Proofs.Schedule.Weathered

namespace KeyedBreaker

open Act

variable {c : Config} {σ σ' : Scene} {st st' : Stand}

/-- The calls of a task are made under one configuration, and what they keep may be written. -/
structure Stand.Current (c : Config) (σ : Scene) (st : Stand) : Prop where
  obeys : st.Obeys (Step.ByBreakers (·.config = c))
  frames : ∀ f ∈ st.frames, f.breaker.config = c ∧ σ.Allows c f.key f.opening.record

theorem Stand.Current.grows {key : String} {rs : List Record} (h : st.Current c σ)
    (hg : σ.store.Grows key rs σ'.store) (ht : σ'.now.reaches σ.now = .ok true) : st.Current c σ' :=
  ⟨h.obeys, fun f hf => ⟨(h.frames f hf).1, (h.frames f hf).2.grows hg ht⟩⟩

namespace Turn

/-- Whatever comes of a turn, it leaves the records in order. -/
theorem ascending (h : Turn σ st σ' st') (hσ : σ.Ascending c) (hst : st.Current c σ)
    (ht : σ'.now.reaches σ.now = .ok true) : σ'.Ascending c := by
  cases h.course hst.obeys with
  | idle hstore => exact hσ.later hstore ht
  | calls _ hb _ hc =>
      subst hb
      exact (hc.ascending hσ ht).1
  | forces _ hb _ hf hw _ =>
      obtain ⟨rfl, -⟩ := hb
      exact hf.ascending hσ hw.now hw.store
  | concludes hfs _ _ hended hw =>
      obtain ⟨rfl, ha⟩ := hst.frames _ (hfs ▸ List.mem_cons_self)
      exact hended.ascending hσ (ha.renews (ha.timed.settle _)) hw.now hw.store

theorem current (h : Turn σ st σ' st') (hσ : σ.Ascending c) (hst : st.Current c σ)
    (ht : σ'.now.reaches σ.now = .ok true) : st'.Current c σ' := by
  obtain ⟨k, rs, hg⟩ := (h.course hst.obeys).grows
  refine ⟨h.obeys hst.obeys, fun f' hf' => ?_⟩
  rcases h.mem_frames hf' with ⟨f, hf, inner, rfl⟩ | ⟨b, key, w, inner, o, hplace, hp, rfl⟩
  · exact (hst.grows hg ht).frames f hf
  · obtain ⟨rfl, -⟩ := hst.obeys.operating (.inr (.inr hplace))
    exact ⟨rfl, ((Breaker.called_of_play hp).ascending hσ ht).2 o rfl⟩

end Turn

namespace Schedule

variable {s : Schedule} {ms : List Move}

def Onward (c : Config) (s : Schedule) : Prop := s.Holds (Scene.Ascending c) (Stand.Current c)

theorem Onward.move (h : s.Onward c) {m : Move}
    (hm : ∀ step, m = .submit step → step.Everywhere (Step.ByBreakers (·.config = c)))
    (ht : (s.move m).scene.now.reaches s.scene.now = .ok true) : (s.move m).Onward c := by
  cases m with
  | submit step =>
      exact h.add ⟨Stand.obeys_starting (hm step rfl), fun _ hf => absurd hf List.not_mem_nil⟩
  | turn =>
      refine h.tick fun st st' hst hturn => ⟨hturn.ascending h.scene hst ht,
        hturn.current h.scene hst ht, fun other hother => ?_⟩
      obtain ⟨k, rs, hg⟩ := (hturn.course hst.obeys).grows
      exact hother.grows hg ht

/-- Over a store that starts empty, and under a clock that never goes backwards, breakers with one
configuration store records under each key of which each has the next version after the one before, and
neither of whose times is set back, whatever their calls and administrative steps come to and whatever
faults the store meets. -/
theorem history_ascends (htasks : s.tasks = []) (hempty : s.scene.store.writes = [])
    (hsteps : ∀ step, .submit step ∈ ms → step.Everywhere (Step.ByBreakers (·.config = c)))
    (hforward : s.Forward ms) (key : String) :
    ∃ rs : List Record, (s.after ms).scene.store.history key = rs.map some ∧
      rs.IsChain Record.Succeeds := by
  have hstart : s.Onward c :=
    holds_of_no_tasks htasks fun key =>
      ⟨[], Store.history_of_writes_nil hempty key, fun _ hr => absurd hr List.not_mem_nil, .nil⟩
  have hend : (s.after ms).Onward c :=
    after_induction_forward (fun _ _ h => h.move) hstart hsteps hforward
  obtain ⟨rs, hrs, -, hchain⟩ := hend.scene key
  exact ⟨rs, hrs, hchain⟩

def tripTwice : List Move :=
  [.submit (.force {} "k" .open)] ++ List.replicate 4 .turn ++
    [.submit (.advance (Binary64.ofInt 2))] ++ List.replicate 2 .turn ++
    [.submit (.force { number := 1 } "k" .open)] ++ List.replicate 4 .turn

theorem history_ascends_tripTwice :
    (((atRest beginning (.memory [])).after tripTwice).scene.store.history "k").map
        (fun x => x.bind fun r => r.closeAt.map (·.wall)) = [some 7000000, some 5000000] ∧
      ∃ rs : List Record, ((atRest beginning (.memory [])).after tripTwice).scene.store.history "k" =
        rs.map some ∧ rs.IsChain Record.Succeeds := by
  have hforward : (atRest beginning (.memory [])).Forward tripTwice := by
    simp only [tripTwice, List.replicate, List.cons_append, List.nil_append, Forward]
    decide +kernel
  have hsteps : ∀ step, .submit step ∈ tripTwice →
      step.Everywhere (Step.ByBreakers (·.config = {})) := by
    simp [tripTwice, Step.Everywhere, Step.ByBreakers]
  exact ⟨by decide +kernel, history_ascends rfl rfl hsteps hforward "k"⟩

end Schedule

end KeyedBreaker
