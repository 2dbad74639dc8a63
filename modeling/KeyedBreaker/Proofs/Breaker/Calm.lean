import KeyedBreaker.Proofs.Breaker.Weathered
import KeyedBreaker.Proofs.Record.Calm

namespace KeyedBreaker

namespace Scene

def AllCalm (c : Config) (s : Scene) : Prop :=
  ∀ key r, s.store.lookup key = .ok (some r) → r.Calm c s.now

structure Noted (key : String) (rs : List Record) (ts : List (Status × Status)) (s s' : Scene) :
    Prop where
  store : s.store.Grows key rs s'.store
  logged : ∀ other, s'.logged other = (if other = key then ts else []) ++ s.logged other

/-- From one scene to the next the circuit of a key made allowed transitions only: none but these were
logged, and the status that is stored is the same or the end of one of them. -/
structure Transits (key : String) (allowed : Status → Status → Prop) (s s' : Scene) : Prop where
  logged : ∃ ts, s'.logged key = ts ++ s.logged key ∧ ∀ p ∈ ts, allowed p.1 p.2
  stored : ∀ x y, s.store.lookup key = .ok x → s'.store.lookup key = .ok y →
    Breaker.statusOf y = Breaker.statusOf x ∨ allowed (Breaker.statusOf x) (Breaker.statusOf y)

variable {key : String} {rs rs' : List Record} {ts ts' : List (Status × Status)} {s s' s'' : Scene}
  {allowed : Status → Status → Prop} {c : Config}

theorem Weathers.noted (h : s.Weathers key rs ts s') : s.Noted key rs ts s' := ⟨h.store, h.logged⟩

theorem Noted.trans (h : s.Noted key rs ts s') (h' : s'.Noted key rs' ts' s'') :
    s.Noted key (rs' ++ rs) (ts' ++ ts) s'' :=
  ⟨h.store.trans h'.store, logged_trans h.logged h'.logged⟩

theorem noted_of_same (hstore : s'.store = s.store) (hlogged : SameLogged s s') :
    s.Noted key [] [] s' :=
  ⟨hstore ▸ .refl, fun other => by rw [ite_self, List.nil_append, hlogged]⟩

theorem Noted.transits_of_ne {other : String} (h : s.Noted key rs ts s') (hk : other ≠ key) :
    s.Transits other allowed s' := by
  refine ⟨⟨[], by rw [h.logged, if_neg hk], fun p hp => by cases hp⟩, fun x y hx hy => ?_⟩
  rw [h.store.lookup_of_ne hk, hx] at hy
  cases hy
  exact .inl rfl

theorem Noted.transits (h : s.Noted key rs ts s') (hts : ∀ p ∈ ts, allowed p.1 p.2)
    (hrs : ∀ x, s.store.lookup key = .ok x → ∀ r ∈ rs,
      r.status = Breaker.statusOf x ∨ allowed (Breaker.statusOf x) r.status) (other : String) :
    s.Transits other allowed s' := by
  by_cases hk : other = key
  · subst hk
    refine ⟨⟨ts, by rw [h.logged, if_pos rfl], hts⟩, fun x y hx hy => ?_⟩
    rw [h.store.lookup hx] at hy
    cases hy
    cases rs with
    | nil => exact .inl rfl
    | cons r rs => exact hrs x hx r List.mem_cons_self
  · exact h.transits_of_ne hk

theorem AllCalm.grows (hs : s.AllCalm c) (hc : 1 ≤ c.failureThreshold)
    (hg : s.store.Grows key rs s'.store) (hrs : ∀ r ∈ rs, r.Calm c s.now)
    (ht : s'.now.reaches s.now = .ok true) : s'.AllCalm c := by
  intro other r hr
  refine Record.Calm.later ?_ hc ht
  by_cases hk : other = key
  · subst hk
    cases rs with
    | nil => exact hs other r (hg.lookup_nil ▸ hr)
    | cons e es =>
        rw [hg.lookup_cons] at hr
        cases hr
        exact hrs r List.mem_cons_self
  · rw [hg.lookup_of_ne hk] at hr
    exact hs other r hr

end Scene

open Act

def Probing (old new : Status) : Prop := old = .open ∧ new = .halfOpen

/-- A transition that opens no circuit which lets calls through. -/
def Harmless (old new : Status) : Prop := old.rejects = false → new ≠ .open

theorem Probing.harmless {old new : Status} (h : Probing old new) : Harmless old new := by
  rintro -
  rw [h.2]
  decide

/-- A call that makes at most the probing of an open circuit before its function, and opens no circuit that
lets calls through at its end. -/
theorem Scene.Noted.transits_harmless {key : String} {rs rs' : List Record}
    {ts ts' : List (Status × Status)} {s s' : Scene} (h : s.Noted key (rs' ++ rs) (ts' ++ ts) s')
    (hts : ∀ p ∈ ts, Probing p.1 p.2) (hts' : ∀ p ∈ ts', p.2 ≠ .open)
    (hrs : ∀ r ∈ rs, ∀ x, s.store.lookup key = .ok x → Probing (Breaker.statusOf x) r.status)
    (hrs' : ∀ r ∈ rs', r.status = .open →
      ∀ x, s.store.lookup key = .ok x → Breaker.statusOf x = .open) (other : String) :
    s.Transits other Harmless s' := by
  refine h.transits (fun p hp => ?_) (fun x hx r hr => ?_) other
  · exact (List.mem_append.1 hp).elim (fun hp _ => hts' p hp) fun hp => (hts p hp).harmless
  · rcases List.mem_append.1 hr with hr | hr
    · by_cases ho : r.status = .open
      · exact .inl (ho.trans (hrs' r hr ho x hx).symm)
      · exact .inr fun _ => ho
    · exact .inr (hrs r hr x hx).harmless

namespace Breaker

variable {b : Breaker} {key : String} {s s' : Scene} {r e : Record} {t : Instant}
  {rs : List Record} {ts : List (Status × Status)} {x : Option Record}

theorem start_fst_of_now {w : Work} (h : s'.now = s.now) :
    ((w.start key).play s').1 = ((w.start key).play s).1 := by
  have hstart : ∀ σ : Scene, ((w.start key).play σ).1 = (w.advance.map fun seconds =>
      ((σ.now.addSeconds seconds).mapError Failure.time).map fun _ => ()).getD (.ok ()) := by
    intro σ
    have he : (emit (.started key)).play σ = (.ok (), σ.seeing [.started key]) := rfl
    rw [Work.start, play_bind_ok σ he]
    cases w.advance with
    | none => cases w.monotonic <;> rfl
    | some seconds =>
        dsimp only
        rw [play_bind, advanceClock, play_bind_ok _ (play_now _), play_bind, play_ofTime]
        change _ = (((σ.seeing [.started key]).now.addSeconds seconds).mapError _).map _
        cases (σ.seeing [.started key]).now.addSeconds seconds with
        | error err => rfl
        | ok t => cases w.monotonic <;> rfl
  rw [hstart, hstart, h]

theorem Advanced.calm {out : Except Failure Record} (h : Advanced b t r out rs ts)
    (hc : b.config.check = .ok ()) (hr : r.Calm b.config t) :
    (∀ e ∈ rs, e.Calm b.config t ∧ Probing r.status e.status) ∧ (∀ p ∈ ts, Probing p.1 p.2) ∧
      ∀ e, out = .ok e → e.Calm b.config t ∧ (e = r ∨ e.status = .halfOpen) := by
  have hmoved : ∀ {target e}, b.change t r = .ok (some (target, e)) →
      Probing r.status target ∧ e.Calm b.config t ∧ e.status = target := by
    intro target e hch
    refine ⟨change_of_calm hr hch, calm_of_change hc hch, ?_⟩
    obtain ⟨entered, hent, rfl⟩ := enter_eq_ok (change_eq_some hch).2
    exact hent.status
  have hsaved : ∀ {target e e'}, b.change t r = .ok (some (target, e)) → Saved e (.ok e') rs →
      (∀ e ∈ rs, e.Calm b.config t ∧ Probing r.status e.status) ∧ e'.Calm b.config t ∧
        e'.status = .halfOpen := by
    intro target e e' hch hs
    obtain ⟨hp, hcalm, hst⟩ := hmoved hch
    rw [← hst] at hp
    cases hs with
    | kept => exact ⟨List.forall_mem_singleton.2 ⟨hcalm.next, hp⟩, hcalm.next, hp.2⟩
    | dropped => exact ⟨fun _ hm => absurd hm List.not_mem_nil, hcalm, hp.2⟩
  cases h with
  | failed => exact ⟨fun _ hm => (by cases hm), fun _ hm => (by cases hm), fun _ ho => by cases ho⟩
  | still =>
      refine ⟨fun _ hm => (by cases hm), fun _ hm => (by cases hm), fun e he => ?_⟩
      cases he
      exact ⟨hr, .inl rfl⟩
  | moved hch hs =>
      obtain ⟨hrs, hcalm, hst⟩ := hsaved hch hs
      refine ⟨hrs, List.forall_mem_singleton.2 (hmoved hch).1, fun e he => ?_⟩
      cases he
      exact ⟨hcalm, .inr hst⟩
  | interrupted hch hs =>
      exact ⟨(hsaved hch hs).1, List.forall_mem_singleton.2 (hmoved hch).1, fun _ ho => by cases ho⟩

theorem Opened.calm {out : Except Failure (Opening × Except Failure Unit)}
    (h : Opened b key s out rs ts) (hc : b.config.check = .ok ()) (hs : s.AllCalm b.config) :
    (∀ r ∈ rs, r.Calm b.config s.now ∧
        ∀ x, s.store.lookup key = .ok x → Probing (statusOf x) r.status) ∧
      ∀ p ∈ ts, Probing p.1 p.2 := by
  have hadvanced : ∀ {x r out}, s.store.lookup key = .ok x → b.loaded s.now (.ok x) = .ok r →
      Advanced b s.now r out rs ts → (∀ e ∈ rs, e.Calm b.config s.now ∧
        ∀ x, s.store.lookup key = .ok x → Probing (statusOf x) e.status) ∧
          ∀ p ∈ ts, Probing p.1 p.2 := by
    intro x r out hx hl ha
    have hr := calm_of_loaded hc hl fun r' hr' => hs key r' (hr' ▸ hx)
    obtain ⟨hrs, hts, -⟩ := ha.calm hc hr
    refine ⟨fun e he => ⟨(hrs e he).1, fun y hy => ?_⟩, hts⟩
    rw [hx] at hy
    cases hy
    exact status_loaded hl ▸ (hrs e he).2
  cases h with
  | unloaded => exact ⟨fun _ hm => (by cases hm), fun _ hm => by cases hm⟩
  | unadvanced hx hl ha => exact hadvanced hx hl ha
  | opened hx hl ha => exact hadvanced hx hl ha

theorem status_opening {started : Binary64} :
    (b.opening key t started r).record.status = r.status := Record.status_permit

theorem Opened.tolerable {o : Opening} {permitted : Except Failure Unit}
    (h : Opened b key s (.ok (o, permitted)) rs ts) (hc : b.config.check = .ok ())
    (hs : s.AllCalm b.config) :
    o.record.Tolerable b.config ∧ (permitted = .ok () → o.record.status.rejects = false) ∧
      (o.record.status = .open → ∀ x, s.store.lookup key = .ok x → statusOf x = .open) := by
  cases h with
  | opened hx hl ha =>
      have hr := calm_of_loaded hc hl fun r' hr' => hs key r' (hr' ▸ hx)
      obtain ⟨-, -, hout⟩ := ha.calm hc hr
      obtain ⟨hcalm, hst⟩ := hout _ rfl
      rw [status_opening]
      refine ⟨hcalm.permit (Record.thresholds_of_check hc).2, Record.rejects_of_permit,
        fun ho y hy => ?_⟩
      · rw [hx] at hy
        cases hy
        rcases hst with rfl | hst
        · exact status_loaded hl ▸ ho
        · rw [hst] at ho
          cases ho

theorem Ended.calm (h : Ended b t r rs ts) (hc : b.config.check = .ok ()) (hr : r.Counted) :
    ∀ e ∈ rs, e.Calm b.config t := by
  cases h with
  | dropped => exact fun _ hm => by cases hm
  | kept hren _ => exact List.forall_mem_singleton.2 (calm_of_renewed hc hren hr).next

theorem Ended.harmless (h : Ended b t r rs ts) (hr : r.Tolerable b.config) :
    (∀ e ∈ rs, e.status = .open → r.status = .open) ∧ ∀ p ∈ ts, p.2 ≠ .open := by
  have howed : ∀ p, b.owed t r = some p → p.2 ≠ .open := by
    rintro p hp ho
    unfold owed at hp
    split at hp
    · cases hp
      obtain rfl := ho
      exact hr.due_ne_open (change_eq_some ‹_›).1
    · cases hp
  cases h with
  | dropped hts => exact ⟨fun _ hm => (by cases hm), fun p hp => howed p (hts p hp)⟩
  | kept hren hts =>
      refine ⟨List.forall_mem_singleton.2 fun ho => ?_, fun p hp => howed p (hts p hp)⟩
      rcases renewed_cases hren with ⟨-, rfl⟩ | ⟨target, hch⟩
      · exact ho
      · obtain ⟨entered, hent, rfl⟩ := enter_eq_ok (change_eq_some hch).2
        have ht : target = .open := hent.status.symm.trans ho
        subst ht
        exact absurd (change_eq_some hch).1 hr.due_ne_open

/-- Before its function a call makes no transition but that of an open circuit to a half-open one. -/
theorem begin_transits (hc : b.config.check = .ok ()) (hs : s.AllCalm b.config) (key other : String) :
    s.Transits other Probing ((b.begin key).play s).2 := by
  obtain ⟨out, s', rs, ts, hp, hw, ho⟩ := b.begin_weathers key s
  obtain ⟨hrs, hts⟩ := ho.calm hc hs
  rw [hp]
  exact hw.noted.transits hts (fun x hx r hr => .inr ((hrs r hr).2 x hx)) other

theorem Called.noted {w : Work} {out : Except Failure Stage} (h : Called b key w s out s') :
    ∃ rs ts, s.Noted key rs ts s' := by
  cases h with
  | unbegun _ hw => exact ⟨_, _, hw.noted⟩
  | rejected _ hw _ hw' => exact ⟨_, _, hw.noted.trans hw'.noted⟩
  | failed _ hw _ hstarted hlogged _ hw' =>
      exact ⟨_, _, (hw.noted.trans (Scene.noted_of_same hstarted.store hlogged)).trans hw'.noted⟩
  | running _ hw hstarted hlogged =>
      exact ⟨_, _, hw.noted.trans (Scene.noted_of_same hstarted.store hlogged)⟩

theorem Called.calm {w : Work} {out : Except Failure Stage} (h : Called b key w s out s')
    (hc : b.config.check = .ok ()) (hs : s.AllCalm b.config) :
    (∃ rs, s.store.Grows key rs s'.store ∧ ∀ r ∈ rs, r.Calm b.config s.now) ∧
      ∀ o, out = .ok (.running o) →
        o.record.Tolerable b.config ∧ o.record.status.rejects = false := by
  have happend : ∀ {rs rs' : List Record}, (∀ r ∈ rs, r.Calm b.config s.now) →
      (∀ r ∈ rs', r.Calm b.config s.now) → ∀ r ∈ rs' ++ rs, r.Calm b.config s.now :=
    fun h h' r hr => (List.mem_append.1 hr).elim (h' r) (h r)
  cases h with
  | unbegun ho hw =>
      exact ⟨⟨_, hw.store, fun r hr => ((ho.calm hc hs).1 r hr).1⟩, fun _ he => by cases he⟩
  | rejected ho hw hended hw' =>
      have hcalm := hended.calm hc (ho.tolerable hc hs).1.counted
      exact ⟨⟨_, hw.store.trans hw'.store,
        happend (fun r hr => ((ho.calm hc hs).1 r hr).1) hcalm⟩, fun _ => (absurd · ended_ne_running)⟩
  | failed ho hw _ hstarted _ hended hw' =>
      have hcalm := hended.calm hc ((ho.tolerable hc hs).1.counted.settle _)
      exact ⟨⟨_, (hstarted.store ▸ hw.store).trans hw'.store,
        happend (fun r hr => ((ho.calm hc hs).1 r hr).1) hcalm⟩, fun _ => (absurd · ended_ne_running)⟩
  | running ho hw hstarted _ =>
      refine ⟨⟨_, hstarted.store ▸ hw.store, fun r hr => ((ho.calm hc hs).1 r hr).1⟩, fun o he => ?_⟩
      cases he
      obtain ⟨htol, hrejects, -⟩ := ho.tolerable hc hs
      exact ⟨htol, hrejects rfl⟩

/-- Up to its first pause a call opens no circuit, unless its function fails as it starts and the failure
counts. -/
theorem Called.transits {w : Work} {out : Except Failure Stage} (h : Called b key w s out s')
    (hc : b.config.check = .ok ()) (hs : s.AllCalm b.config)
    (hw : Record.Uncounted b.config ((w.start key).play s).1) (other : String) :
    s.Transits other Harmless s' := by
  cases h with
  | unbegun ho hw =>
      obtain ⟨hrs, hts⟩ := ho.calm hc hs
      exact hw.noted.transits (fun p hp => (hts p hp).harmless)
        (fun x hx r hr => .inr ((hrs r hr).2 x hx).harmless) other
  | rejected ho hw₁ hended hw' =>
      obtain ⟨hrs, hts⟩ := ho.calm hc hs
      obtain ⟨htol, -, hopen⟩ := ho.tolerable hc hs
      obtain ⟨hrs', hts'⟩ := hended.harmless htol
      exact (hw₁.noted.trans hw'.noted).transits_harmless hts hts' (fun r hr => (hrs r hr).2)
        (fun r hr hopened => hopen (hrs' r hr hopened)) other
  | failed ho hw₁ hplay hstarted hlogged hended hw' =>
      obtain ⟨hrs, hts⟩ := ho.calm hc hs
      obtain ⟨htol, hrejects, -⟩ := ho.tolerable hc hs
      rw [start_fst_of_now hw₁.now.symm, hplay] at hw
      have hf := Record.uncounted_error.1 hw
      obtain ⟨hrs', hts'⟩ := hended.harmless (htol.settle (Record.uncounted_error.2 hf))
      have hnoted := (hw₁.noted.trans (Scene.noted_of_same hstarted.store hlogged)).trans hw'.noted
      refine hnoted.transits_harmless hts hts' (fun r hr => (hrs r hr).2) (fun r hr hopened => ?_) other
      -- the function started, so the circuit lets calls through
      have hst := hrs' r hr hopened
      rw [Record.status_settle] at hst
      have hruns := hrejects rfl
      rw [hst] at hruns
      cases hruns
  | running ho hw₁ hstarted hlogged =>
      obtain ⟨hrs, hts⟩ := ho.calm hc hs
      exact (hw₁.noted.trans (Scene.noted_of_same hstarted.store hlogged)).transits
        (fun p hp => (hts p hp).harmless) (fun x hx r hr => .inr ((hrs r hr).2 x hx).harmless) other

end Breaker

end KeyedBreaker
