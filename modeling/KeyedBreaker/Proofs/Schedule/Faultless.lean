import KeyedBreaker.Proofs.Breaker.Carried
import KeyedBreaker.Proofs.Schedule.Sound

namespace KeyedBreaker

def Step.Faultless : Step → Prop
  | .addFaults .. => False
  | _ => True

/-- Records are written by breakers only, and no access to the store meets a fault. -/
def Step.Undisturbed (p : Breaker → Prop) (step : Step) : Prop := step.ByBreakers p ∧ step.Faultless

open Act

namespace Scene

variable {s : Scene}

theorem idle_seeing {es : List Event} (h : ∀ e ∈ es, e.Plain) (s : Scene) : s.Idle (s.seeing es) :=
  ⟨rfl, rfl, starts_seeing h, tries_seeing h⟩

end Scene

namespace Act

variable {α β : Type}

def IsIdle (a : Act α) : Prop := ∀ s : Scene, s.Quiet → s.Idle (a.play s).2

theorem IsIdle.bind {a : Act α} {g : α → Act β} (ha : a.IsIdle) (hg : ∀ x, (g x).IsIdle) :
    (a >>= g).IsIdle := by
  intro s hq
  have h := ha s hq
  rw [play_bind]
  rcases hp : a.play s with ⟨f | x, s'⟩ <;> rw [hp] at h
  · exact h
  · have h' := hg x s' (h.quiet hq)
    exact ⟨h'.faults.trans h.faults, h'.store.trans h.store, h'.starts.trans h.starts,
      h'.tries.trans h.tries⟩

theorem IsIdle.map {a : Act α} (ha : a.IsIdle) (g : α → β) : (g <$> a).IsIdle := by
  intro s hq
  rw [play_map]
  exact ha s hq

theorem isIdle_of_play {a : Act α} {out : Scene → Except Failure α}
    (h : ∀ s, a.play s = (out s, s)) : a.IsIdle := fun s _ => by
  rw [h]
  exact .refl s

end Act

namespace Step

variable {p : Breaker → Prop} {step : Step} {a : Act Answer}

theorem act?_isIdle (h : step.act? = some a) (hstep : step.Undisturbed p) : a.IsIdle := by
  have hload : ∀ (b : Breaker) (key : String), (b.load key).IsIdle := by
    intro b key s hq
    obtain ⟨s', hp, hl⟩ := b.load_leads hq key
    rw [hp]
    exact hl.idle
  cases step with
  | status b key =>
      cases h
      exact ((hload b key).bind fun r => isIdle_of_play fun s => play_pure s r.status).map _
  | snapshot b key =>
      cases h
      exact (hload b key).map _
  | resetIn b key =>
      cases h
      refine IsIdle.map ((hload b key).bind fun r => ?_) _
      exact (isIdle_of_play play_now).bind fun _ => isIdle_of_play (play_ofTime · _)
  | advance seconds =>
      cases h
      refine IsIdle.map ((isIdle_of_play play_now).bind fun _ => ?_) _
      exact (isIdle_of_play (play_ofTime · _)).bind fun _ _ _ => ⟨rfl, rfl, rfl, rfl⟩
  | setClock t =>
      cases h
      exact IsIdle.map (fun _ _ => ⟨rfl, rfl, rfl, rfl⟩) _
  | getRecord key =>
      cases h
      refine IsIdle.map (fun s hq => ?_) _
      obtain ⟨s', hp, hl⟩ := readRecord_leads hq key
      rw [hp]
      exact hl.idle
  | addFaults => exact hstep.2.elim
  | overwrite | setRecord => exact hstep.1.elim
  | call | force | release | cancel => cases h

end Step

variable {p : Breaker → Prop} {σ σ' : Scene} {st st' : Stand}

/-- A call whose function is running, and the record that it knows: the store holds that record, or
a later one. -/
structure Frame.Grounded (σ : Scene) (f : Frame) : Prop where
  known : ∃ x, σ.store.lookup f.key = .ok x ∧
    f.opening.record.version ≤ Record.versionOf x ∧
    (f.opening.record.version = Record.versionOf x → f.opening.status = Breaker.statusOf x)
  recorded : f.opening.record.status = f.opening.status
  admits : f.opening.status.rejects = false

theorem Frame.Grounded.grows {key : String} {rs : List Record} {f : Frame} (h : f.Grounded σ)
    (hg : σ.store.Grows key rs σ'.store) : f.Grounded σ' := by
  refine ⟨?_, h.recorded, h.admits⟩
  obtain ⟨x, hx, hle, heq⟩ := h.known
  by_cases hk : f.key = key
  · subst hk
    cases rs with
    | nil => exact ⟨x, hg.lookup_nil ▸ hx, hle, heq⟩
    | cons r rs =>
        have hx' := hg.lookup hx
        have hv := hg.versionOf hx hx'
        rw [List.length_cons, Nat.cast_succ] at hv
        exact ⟨_, hx', by omega, fun he => absurd he (by omega)⟩
  · exact ⟨x, (hg.lookup_of_ne hk).trans hx, hle, heq⟩

structure Stand.Grounded (p : Breaker → Prop) (σ : Scene) (st : Stand) : Prop where
  obeys : st.Obeys (Step.Undisturbed p)
  breakers : ∀ f ∈ st.frames, p f.breaker
  frames : ∀ f ∈ st.frames, f.Grounded σ

namespace Turn

/-- What a turn does to the scene where no fault is met. -/
inductive Effect (p : Breaker → Prop) (σ : Scene) (st : Stand) (σ' : Scene) : Prop
  | idle : σ.Idle σ' → Effect p σ st σ'
  | calls {b : Breaker} {key : String} {w : Work} {inner : List Step} {x : Option Record}
      {out : Except Failure Breaker.Stage} : st.place = .acting (.call b key w inner) → p b →
      σ.store.lookup key = .ok x → b.EnteredCall key x σ out σ' → Effect p σ st σ'
  | forces {b : Breaker} {key : String} {target : Status} {attempt : Nat}
      {out : Except Failure (Status × Record)} {σ₁ : Scene} :
      st.place = .acting (.force b key target attempt) → p b ∧ target ≠ .halfOpen →
      (b.overwriteOnce key target).play σ = (out, σ₁) → b.Overwritten key target σ out σ₁ →
      σ₁.Leads key [] [] σ' → Effect p σ st σ'
  | concludes {f : Frame} {fs : List Frame} {x : Option Record} {result out : Except Failure Json} :
      st.frames = f :: fs → σ.store.lookup f.key = .ok x →
      f.breaker.Concluded f.key x f.opening result σ out σ' → Effect p σ st σ'

theorem effect_of_enterCall {b : Breaker} {key : String} {w : Work} {inner : List Step}
    {out : Except Failure Breaker.Stage} (hq : σ.Quiet) (hst : st.Obeys (Step.Undisturbed p))
    (hp : st.place = .acting (.call b key w inner))
    (hplay : (b.enterCall key w).play σ = (out, σ')) : Effect p σ st σ' := by
  cases hx : σ.store.lookup key with
  | error f => exact .idle (Breaker.unread_of_play hq hx hplay).2.idle
  | ok x =>
      have hb : Step.Everywhere (Step.Undisturbed p) (.call b key w inner) :=
        hst.operating (.inr (.inr hp))
      exact .calls hp hb.self.1 hx (Breaker.entered_of_play hq hx hplay)

theorem effect (h : Turn σ st σ' st') (hq : σ.Quiet) (hst : st.Grounded p σ) :
    Effect p σ st σ' := by
  cases h with
  | plays ha => exact .idle (Step.act?_isIdle ha (hst.obeys.starting rfl).self σ hq)
  | opens hp | ends hp | breaks hp => exact effect_of_enterCall hq hst.obeys rfl hp
  | forces hp =>
      obtain ⟨out, s', hc, -, hl⟩ := Breaker.confirm_leads _ _ _ _ _
      rw [hc]
      exact .forces rfl (hst.obeys.operating (.inr (.inr rfl))).1 hp
        (Breaker.overwritten_of_play hq hp) hl
  | retries hp hf =>
      -- an attempt that reads and writes in one go meets no conflicting write
      cases Breaker.overwritten_of_play hq hp with
      | failed hf' => rw [hf'] at hf; cases hf
  | fails hp =>
      exact .forces rfl (hst.obeys.operating (.inr (.inr rfl))).1 hp
        (Breaker.overwritten_of_play hq hp) (.refl _ _)
  | @concludes _ f fs result =>
      obtain ⟨x, hx, -, -⟩ := (hst.frames f List.mem_cons_self).known
      exact .concludes rfl hx (Breaker.concluded_of_play hq hx rfl)
  | resumes =>
      refine .idle (Scene.idle_seeing (fun e he => ?_) σ)
      rw [List.mem_singleton.1 he]
      exact ⟨rfl, rfl⟩
  | _ => exact .idle (.refl σ)

/-- A turn keeps records under one key at most. -/
theorem Effect.grows (h : Effect p σ st σ') (hq : σ.Quiet) :
    σ'.Quiet ∧ ∃ key rs, σ.store.Grows key rs σ'.store := by
  cases h with
  | idle hi => exact ⟨hi.quiet hq, "", _, (hi.gains "").store⟩
  | @calls b key w inner x out _ _ _ he =>
      obtain ⟨-, rs, hg, -⟩ := he.gains
      exact ⟨hg.quiet hq, key, rs, hg.store⟩
  | @forces b key target attempt out σ₁ _ _ _ ho hl =>
      obtain ⟨-, rs, hg⟩ := ho.gains
      exact ⟨hl.quiet (hg.quiet hq), key, _, hg.store.trans hl.store⟩
  | @concludes f fs x result out _ _ hc =>
      by_cases hv : f.opening.record.version = Record.versionOf x
      · obtain ⟨-, rs, hg, -⟩ := hc.gains hv
        exact ⟨hg.quiet hq, f.key, rs, hg.store⟩
      · obtain ⟨-, hfaults, hstore⟩ := hc.idle_of_stale hv
        exact ⟨fun a => (congrFun hfaults a).trans (hq a), f.key, [], hstore ▸ .refl⟩

theorem Effect.carried {P : Record → Prop} {key : String} (h : Effect p σ st σ')
    (hst : st.Grounded p σ) (hP : ∀ b, p b → b.Carries σ.now P)
    (hframes : ∀ f ∈ st.frames, P f.opening.record) {x : Option Record}
    (hx : σ.store.lookup key = .ok x) (hold : ∀ r', x = some r' → P r') {r : Record}
    (hr : σ'.store.lookup key = .ok (some r)) : P r := by
  have hsame : σ'.store.lookup key = σ.store.lookup key → P r := by
    intro he
    rw [he, hx] at hr
    exact hold r (Except.ok.inj hr)
  cases h with
  | idle hi => exact hsame (by rw [hi.store])
  | @calls b k w inner y out _ hb hy he =>
      by_cases hk : key = k
      · subst hk
        rw [hx] at hy
        cases hy
        exact ((hP b hb).entered he hx hold).1 r hr
      · obtain ⟨-, rs, hg, -⟩ := he.gains
        exact hsame (hg.store.lookup_of_ne hk)
  | @forces b k target attempt out σ₁ _ hb _ ho hl =>
      rw [hl.lookup_eq key] at hr hsame
      by_cases hk : key = k
      · subst hk
        exact (hP b hb.1).overwritten ho hx hold hr
      · obtain ⟨-, rs, hg⟩ := ho.gains
        exact hsame (hg.store.lookup_of_ne hk)
  | @concludes f fs y result out hfs hy hc =>
      have hf : f ∈ st.frames := hfs ▸ List.mem_cons_self
      by_cases hv : f.opening.record.version = Record.versionOf y
      · by_cases hk : key = f.key
        · subst hk
          rw [hx] at hy
          cases hy
          exact (hP _ (hst.breakers f hf)).concluded hc hv hx (hst.frames f hf).recorded
            (hst.frames f hf).admits (hframes f hf) hold hr
        · obtain ⟨-, rs, hg, -⟩ := hc.gains hv
          exact hsame (hg.store.lookup_of_ne hk)
      · obtain ⟨-, -, hstore⟩ := hc.idle_of_stale hv
        exact hsame (by rw [hstore])

theorem grows (h : Turn σ st σ' st') (hq : σ.Quiet) (hst : st.Grounded p σ) :
    σ'.Quiet ∧ ∃ key rs, σ.store.Grows key rs σ'.store :=
  (h.effect hq hst).grows hq

theorem grounded (h : Turn σ st σ' st') (hq : σ.Quiet) (hst : st.Grounded p σ) :
    st'.Grounded p σ' := by
  obtain ⟨-, key, rs, hg⟩ := h.grows hq hst
  refine ⟨h.obeys hst.obeys, fun f' hf' => ?_, fun f' hf' => ?_⟩
  · rcases h.mem_frames hf' with ⟨f, hf, inner, rfl⟩ | ⟨b, k, w, inner, o, hp, -, rfl⟩
    · exact hst.breakers f hf
    · have hb : Step.Everywhere (Step.Undisturbed p) (.call b k w inner) :=
        hst.obeys.operating (.inr (.inr hp))
      exact hb.self.1
  · rcases h.mem_frames hf' with ⟨f, hf, inner, rfl⟩ | ⟨b, k, w, inner, o, -, hp, rfl⟩
    · obtain ⟨hk, hr, ha⟩ := (hst.frames f hf).grows hg
      exact ⟨hk, hr, ha⟩
    · cases hx : σ.store.lookup k with
      | error g => cases (Breaker.unread_of_play hq hx hp).1
      | ok x =>
          obtain ⟨-, rs, hg, ho⟩ := (Breaker.entered_of_play hq hx hp).gains
          have ho := ho o rfl
          exact ⟨⟨_, hg.store.lookup hx, ho.version.le, fun _ => ho.status⟩, ho.recorded, ho.admits⟩

end Turn

namespace Schedule

variable {s : Schedule}

def Grounded (p : Breaker → Prop) (s : Schedule) : Prop :=
  s.Holds Scene.Quiet fun σ st => st.Grounded p σ

theorem Grounded.move (h : s.Grounded p) {m : Move}
    (hm : ∀ step, m = .submit step → step.Everywhere (Step.Undisturbed p)) :
    (s.move m).Grounded p := by
  cases m with
  | submit step =>
      exact h.add ⟨Stand.obeys_starting (hm step rfl), fun _ hf => absurd hf List.not_mem_nil,
        fun _ hf => absurd hf List.not_mem_nil⟩
  | turn =>
      refine h.tick fun st st' hst hturn => ?_
      obtain ⟨hq, key, rs, hg⟩ := hturn.grows h.scene hst
      exact ⟨hq, hturn.grounded h.scene hst,
        fun other ho => ⟨ho.obeys, ho.breakers, fun f hf => (ho.frames f hf).grows hg⟩⟩

theorem grounded_of_no_tasks (htasks : s.tasks = []) (hq : s.scene.Quiet) : s.Grounded p :=
  holds_of_no_tasks htasks hq

end Schedule

end KeyedBreaker
