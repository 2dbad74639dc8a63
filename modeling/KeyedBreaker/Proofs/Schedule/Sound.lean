import KeyedBreaker.Proofs.Breaker.Sound
import KeyedBreaker.Proofs.Schedule.Run

namespace KeyedBreaker

/-- Records are written by breakers only: no one else writes to the store, and no circuit is forced
to be half open. -/
def Step.ByBreakers (p : Breaker → Prop) : Step → Prop
  | .call b _ _ _ => p b
  | .force b _ target => p b ∧ target ≠ .halfOpen
  | .overwrite .. | .setRecord .. => False
  | _ => True

open Act

namespace Act

variable {α β : Type}

def LeavesStore (a : Act α) : Prop := ∀ s, (a.play s).2.store = s.store

theorem leavesStore_of_play {a : Act α} {out : Scene → Except Failure α}
    (h : ∀ s, a.play s = (out s, s)) : a.LeavesStore := fun s => by rw [h]

theorem LeavesStore.bind {a : Act α} {g : α → Act β} (ha : a.LeavesStore)
    (hg : ∀ x, (g x).LeavesStore) : (a >>= g).LeavesStore := by
  intro s
  have h := ha s
  rw [play_bind]
  rcases hp : a.play s with ⟨f | x, s'⟩ <;> rw [hp] at h
  · exact h
  · exact (hg x s').trans h

theorem LeavesStore.tryCatch {a : Act α} {g : Failure → Act α} (ha : a.LeavesStore)
    (hg : ∀ f, (g f).LeavesStore) : (tryCatch a g).LeavesStore := by
  intro s
  have h := ha s
  rw [play_tryCatch]
  rcases hp : a.play s with ⟨f | x, s'⟩ <;> rw [hp] at h
  · exact (hg f s').trans h
  · exact h

theorem LeavesStore.map {a : Act α} (ha : a.LeavesStore) (g : α → β) : (g <$> a).LeavesStore := by
  intro s
  rw [play_map]
  exact ha s

theorem leavesStore_throw (f : Failure) : (throw f : Act α).LeavesStore := fun _ => rfl

theorem leavesStore_ofTime (x : Except TimeError α) : (ofTime x).LeavesStore :=
  leavesStore_of_play (play_ofTime · x)

theorem leavesStore_now : now.LeavesStore := fun _ => rfl

theorem readRecord_leavesStore (key : String) : (readRecord key).LeavesStore := by
  intro s
  obtain ⟨s', ha, hp | ⟨f, hp⟩⟩ := readRecord_cases key s <;> rw [hp] <;> exact ha.store

theorem advanceClock_leavesStore (seconds : Binary64) : (advanceClock seconds).LeavesStore :=
  leavesStore_now.bind fun _ => (leavesStore_ofTime _).bind fun _ _ => rfl

end Act

namespace Breaker

variable (b : Breaker) (key : String)

theorem load_leavesStore : (b.load key).LeavesStore := by
  refine ((readRecord_leavesStore key).tryCatch fun _ => leavesStore_throw _).bind fun x => ?_
  cases x with
  | some r => exact fun _ => rfl
  | none => exact leavesStore_now.bind fun _ => leavesStore_ofTime _

theorem confirm_leavesStore (target previous : Status) : (b.confirm key target previous).LeavesStore := by
  intro s
  obtain ⟨out, s', hp, -, hl⟩ := b.confirm_leads key target previous s
  rw [hp, hl.store.lookup_nil]

end Breaker

namespace Step

variable {p : Breaker → Prop} {step : Step} {a : Act Answer}

theorem act?_leavesStore (h : step.act? = some a) (hstep : step.ByBreakers p) : a.LeavesStore := by
  cases step with
  | status b key =>
      cases h
      exact ((b.load_leavesStore key).bind fun _ _ => rfl).map _
  | snapshot b key =>
      cases h
      exact (b.load_leavesStore key).map _
  | resetIn b key =>
      cases h
      refine LeavesStore.map ((b.load_leavesStore key).bind fun r => ?_) _
      exact leavesStore_now.bind fun _ => leavesStore_ofTime _
  | advance seconds =>
      cases h
      exact (advanceClock_leavesStore seconds).map _
  | setClock t =>
      cases h
      exact LeavesStore.map (fun _ => rfl) _
  | addFaults access faults =>
      cases h
      exact LeavesStore.map (fun _ => rfl) _
  | getRecord key =>
      cases h
      exact (readRecord_leavesStore key).map _
  | overwrite | setRecord => exact hstep.elim
  | call | force | release | cancel => cases h

end Step

variable {c : Config} {σ σ' : Scene} {st st' : Stand}

structure Stand.Ready (c : Config) (t : Instant) (st : Stand) : Prop where
  obeys : st.Obeys (Step.ByBreakers (·.config = c))
  frames : ∀ f ∈ st.frames, f.breaker.config = c ∧ f.opening.Ready t

namespace Turn

variable (hc : c.check = .ok ()) (htotal : ∀ f, ∃ counted, c.counts f = .ok counted)

include hc htotal

theorem soundly (h : Turn σ st σ' st') (hσ : σ.AllFit) (hst : st.Ready c σ.now) :
    σ.Soundly c σ' := by
  cases h with
  | plays ha =>
      have hstep := (hst.obeys.starting rfl).self
      exact Scene.soundly_of_store (Step.act?_leavesStore ha hstep _)
  | opens hp | ends hp | breaks hp =>
      have hb := hst.obeys.operating (.inr (.inr rfl))
      obtain ⟨rfl, -⟩ := hb
      exact (Breaker.enterCall_soundly hc htotal hp hσ).1
  | forces hp =>
      obtain ⟨rfl, ht⟩ := hst.obeys.operating (.inr (.inr rfl))
      obtain ⟨hw, hn, -⟩ := Breaker.overwriteOnce_soundAt hc _ ht σ.now σ rfl hσ
      rw [hp] at hw hn
      exact hw.trans hn (Scene.soundly_of_store (Breaker.confirm_leavesStore _ _ _ _ _))
  | retries hp =>
      obtain ⟨rfl, ht⟩ := hst.obeys.operating (.inr (.inr rfl))
      obtain ⟨hw, hn, -⟩ := Breaker.overwriteOnce_soundAt hc _ ht σ.now σ rfl hσ
      rw [hp] at hw hn
      exact hw.trans hn (Scene.soundly_of_store rfl)
  | fails hp =>
      obtain ⟨rfl, ht⟩ := hst.obeys.operating (.inr (.inr rfl))
      obtain ⟨hw, -, -⟩ := Breaker.overwriteOnce_soundAt hc _ ht σ.now σ rfl hσ
      rw [hp] at hw
      exact hw
  | concludes =>
      obtain ⟨rfl, hready⟩ := hst.frames _ List.mem_cons_self
      exact (Breaker.conclude_soundAt hc htotal _ hready _ σ rfl hσ).1
  | _ => exact Scene.soundly_of_store rfl

theorem ready (h : Turn σ st σ' st') (hσ : σ.AllFit) (hst : st.Ready c σ.now)
    (ht : σ'.now.reaches σ.now = .ok true) : st'.Ready c σ'.now := by
  refine ⟨h.obeys hst.obeys, fun f' hf' => ?_⟩
  rcases h.mem_frames hf' with ⟨f, hf, inner, rfl⟩ | ⟨b, key, w, inner, o, hplace, hp, rfl⟩
  · exact ⟨(hst.frames f hf).1, (hst.frames f hf).2.later ht⟩
  · obtain ⟨rfl, -⟩ := hst.obeys.operating (.inr (.inr hplace))
    exact ⟨rfl, ((Breaker.enterCall_soundly hc htotal hp hσ).2 o rfl).later ht⟩

end Turn

namespace Schedule

variable {s : Schedule} {ms : List Move}

/-- The writes of a run in the order of time, each with the time at the beginning of the turn that
made it. -/
def stampedWrites (s : Schedule) : List Move → List (Instant × String × Option Record)
  | [] => []
  | m :: ms =>
    (gained s.scene.store.writes (s.move m).scene.store.writes).map (fun w => (s.scene.now, w)) ++
      (s.move m).stampedWrites ms

theorem gained_append {α : Type} (earlier later : List α) :
    gained earlier (later ++ earlier) = later.reverse := by
  rw [gained, List.length_append, Nat.add_sub_cancel, List.take_left]

def SoundSoFar (c : Config) (s : Schedule) : Prop :=
  s.Holds Scene.AllFit fun σ st => st.Ready c σ.now

variable (hc : c.check = .ok ()) (htotal : ∀ f, ∃ counted, c.counts f = .ok counted)

include hc htotal

theorem SoundSoFar.move (h : s.SoundSoFar c) {m : Move}
    (hm : ∀ step, m = .submit step → step.Everywhere (Step.ByBreakers (·.config = c)))
    (ht : (s.move m).scene.now.reaches s.scene.now = .ok true) :
    s.scene.Soundly c (s.move m).scene ∧ (s.move m).SoundSoFar c := by
  cases m with
  | submit step =>
      exact ⟨Scene.soundly_of_store rfl,
        h.add ⟨Stand.obeys_starting (hm step rfl), fun _ hf => absurd hf List.not_mem_nil⟩⟩
  | turn =>
      have hsound : s.scene.Soundly c s.tick.scene := by
        rcases s.tick_moves with ⟨hscene, -, -⟩ | ⟨i, st, -, hst, st', hturn, -⟩
        · rw [hscene]
          exact Scene.soundly_of_store rfl
        · exact hturn.soundly hc htotal h.scene (h.stands st (List.mem_of_getElem? hst))
      refine ⟨hsound, h.tick fun st st' hst hturn => ⟨hsound.allFit h.scene ht, ?_, ?_⟩⟩
      · exact hturn.ready hc htotal h.scene hst ht
      · exact fun other hother => ⟨hother.obeys, fun f hf =>
          ⟨(hother.frames f hf).1, (hother.frames f hf).2.later ht⟩⟩

theorem SoundSoFar.stampedWrites (h : s.SoundSoFar c)
    (hsteps : ∀ step, .submit step ∈ ms → step.Everywhere (Step.ByBreakers (·.config = c)))
    (hforward : s.Forward ms) :
    (s.after ms).scene.store.writes.reverse =
        s.scene.store.writes.reverse ++ (s.stampedWrites ms).map (·.2) ∧
      ∀ w ∈ s.stampedWrites ms, ∃ r : Record, w.2.2 = some r ∧ r.Sound c w.1 := by
  induction ms generalizing s with
  | nil => exact ⟨(List.append_nil _).symm, fun _ hw => absurd hw List.not_mem_nil⟩
  | cons m ms ih =>
      obtain ⟨ht, hforward⟩ := hforward
      have hm : ∀ step, m = .submit step → step.Everywhere (Step.ByBreakers (·.config = c)) :=
        fun step hm => hsteps step (hm ▸ List.mem_cons_self)
      obtain ⟨⟨ws, hws, hsound⟩, hnext⟩ := h.move hc htotal hm ht
      obtain ⟨hlog, hrest⟩ :=
        ih hnext (fun step hs => hsteps step (List.mem_cons_of_mem _ hs)) hforward
      have hgained : gained s.scene.store.writes (s.move m).scene.store.writes = ws.reverse := by
        rw [hws, gained_append]
      constructor
      · rw [after_cons, hlog, hws, Schedule.stampedWrites, hgained, List.map_append, List.map_map,
          List.reverse_append, List.append_assoc]
        exact congrArg (_ ++ ·) (congrArg (· ++ _) (List.map_id _).symm)
      · intro w hw
        rw [Schedule.stampedWrites, hgained] at hw
        rcases List.mem_append.1 hw with hw | hw
        · obtain ⟨x, hx, rfl⟩ := List.mem_map.1 hw
          exact hsound x (List.mem_reverse.1 hx)
        · exact hrest w hw

/-- Over a store that starts empty, breakers with one accepted configuration store sound records
only, however their calls and administrative steps interleave, whatever comes of the guarded
functions, and whatever faults the store meets. -/
theorem stampedWrites_sound (htasks : s.tasks = []) (hempty : s.scene.store.writes = [])
    (hsteps : ∀ step, .submit step ∈ ms → step.Everywhere (Step.ByBreakers (·.config = c)))
    (hforward : s.Forward ms) :
    (s.after ms).scene.store.writes.reverse = (s.stampedWrites ms).map (·.2) ∧
      ∀ w ∈ s.stampedWrites ms, ∃ r : Record, w.2.2 = some r ∧ r.Sound c w.1 := by
  have hstart : s.SoundSoFar c := by
    refine ⟨fun w hw => ?_, fun st hst => ?_⟩
    · rw [hempty] at hw
      exact absurd hw List.not_mem_nil
    · rw [stands, htasks] at hst
      exact absurd hst List.not_mem_nil
  have h := hstart.stampedWrites hc htotal hsteps hforward
  rw [hempty] at h
  exact h

omit hc htotal

def tripAndCall : List Move :=
  [.submit (.force {} "k" .open), .turn, .turn, .turn, .turn, .submit (.call {} "k" {} []), .turn,
    .turn, .turn, .turn]

theorem stampedWrites_sound_tripAndCall :
    ((atRest beginning (.memory [])).stampedWrites tripAndCall).length = 2 ∧
      ∀ w ∈ (atRest beginning (.memory [])).stampedWrites tripAndCall,
        ∃ r : Record, w.2.2 = some r ∧ r.Sound {} w.1 := by
  have hforward : (atRest beginning (.memory [])).Forward tripAndCall := by
    simp only [tripAndCall, Forward]
    decide +kernel
  have hsteps : ∀ step, .submit step ∈ tripAndCall →
      step.Everywhere (Step.ByBreakers (·.config = {})) := by
    simp [tripAndCall, Step.Everywhere, Step.EverywhereIn, Step.ByBreakers]
  exact ⟨by decide +kernel,
    (stampedWrites_sound (by decide +kernel) (fun _ => ⟨_, rfl⟩) rfl rfl hsteps hforward).2⟩

end Schedule

end KeyedBreaker
