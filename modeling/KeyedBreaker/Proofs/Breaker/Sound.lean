import KeyedBreaker.Proofs.Breaker.Call
import KeyedBreaker.Proofs.Breaker.Control
import KeyedBreaker.Proofs.Record.Sound

namespace KeyedBreaker

namespace Scene

def AllFit (s : Scene) : Prop :=
  ∀ w ∈ s.store.writes, ∃ r : Record, w.2 = some r ∧ r.Fit s.now ∧ 1 ≤ r.version

/-- From one scene to the next, sound records were written and nothing else. -/
def Soundly (c : Config) (s s' : Scene) : Prop :=
  ∃ ws, s'.store.writes = ws ++ s.store.writes ∧
    ∀ w ∈ ws, ∃ r : Record, w.2 = some r ∧ r.Sound c s.now

variable {c : Config} {s s' s'' : Scene}

theorem soundly_of_store (h : s'.store = s.store) : s.Soundly c s' :=
  ⟨[], by rw [h]; rfl, fun _ hw => absurd hw List.not_mem_nil⟩

theorem Soundly.trans (h : s.Soundly c s') (hn : s'.now = s.now) (h' : s'.Soundly c s'') :
    s.Soundly c s'' := by
  obtain ⟨ws, hws, hsound⟩ := h
  obtain ⟨ws', hws', hsound'⟩ := h'
  refine ⟨ws' ++ ws, by rw [hws', hws, List.append_assoc], fun w hw => ?_⟩
  rcases List.mem_append.1 hw with hw | hw
  · exact hn ▸ hsound' w hw
  · exact hsound w hw

theorem Soundly.allFit (h : s.Soundly c s') (hs : s.AllFit)
    (ht : s'.now.reaches s.now = .ok true) : s'.AllFit := by
  obtain ⟨ws, hws, hsound⟩ := h
  intro w hw
  rw [hws] at hw
  rcases List.mem_append.1 hw with hw | hw
  · obtain ⟨r, hr, hr'⟩ := hsound w hw
    exact ⟨r, hr, hr'.fit.later ht, hr'.version⟩
  · obtain ⟨r, hr, hfit, hv⟩ := hs w hw
    exact ⟨r, hr, hfit.later ht, hv⟩

theorem Soundly.allFit_of_now (h : s.Soundly c s') (hs : s.AllFit) (hn : s'.now = s.now) :
    s'.AllFit :=
  h.allFit hs (hn ▸ Instant.reaches_self _)

end Scene

namespace Act

variable {α β : Type} {c : Config} {t : Instant} {Q : α → Prop} {R : β → Prop}

/-- At this time the action writes sound records only, and its value is as stated; time stands
still. -/
def SoundAt (c : Config) (t : Instant) (a : Act α) (Q : α → Prop) : Prop :=
  ∀ s, s.now = t → s.AllFit → s.Soundly c (a.play s).2 ∧ (a.play s).2.now = s.now ∧
    ∀ v, (a.play s).1 = .ok v → Q v

theorem soundAt_of_alike {a : Act α} (h : ∀ s, ∃ out s', a.play s = (out, s') ∧ s.Alike s') :
    a.SoundAt c t fun _ => True := by
  intro s _ _
  obtain ⟨out, s', hp, ha⟩ := h s
  rw [hp]
  exact ⟨Scene.soundly_of_store ha.store, ha.now, fun _ _ => trivial⟩

theorem soundAt_of_utters {a : Act α} {out : Except Failure α} {es : List Event}
    (h : a.Utters out es) : a.SoundAt c t fun _ => True :=
  soundAt_of_alike fun s => ⟨out, _, h s, Scene.alike_seeing es s⟩

theorem soundAt_pure {v : α} (h : Q v) : (pure v : Act α).SoundAt c t Q := by
  intro s _ _
  refine ⟨Scene.soundly_of_store rfl, rfl, fun w hw => ?_⟩
  cases hw
  exact h

theorem soundAt_throw (f : Failure) : (throw f : Act α).SoundAt c t Q :=
  fun _ _ _ => ⟨Scene.soundly_of_store rfl, rfl, fun _ hv => by cases hv⟩

theorem soundAt_ofExcept {x : Except Failure α} (h : ∀ v, x = .ok v → Q v) :
    (ofExcept x : Act α).SoundAt c t Q := by
  intro s _ _
  rw [play_ofExcept]
  exact ⟨Scene.soundly_of_store rfl, rfl, h⟩

theorem soundAt_ofTime {x : Except TimeError α} (h : ∀ v, x = .ok v → Q v) :
    (ofTime x).SoundAt c t Q := by
  refine soundAt_ofExcept fun v hv => h v ?_
  cases x <;> cases hv
  rfl

theorem soundAt_now : now.SoundAt c t (t = ·) := by
  rintro s rfl -
  refine ⟨Scene.soundly_of_store rfl, rfl, fun v hv => ?_⟩
  cases hv
  rfl

theorem SoundAt.weaken {a : Act α} {Q' : α → Prop} (h : a.SoundAt c t Q) (hQ : ∀ v, Q v → Q' v) :
    a.SoundAt c t Q' :=
  fun s ht hs => ⟨(h s ht hs).1, (h s ht hs).2.1, fun v hv => hQ v ((h s ht hs).2.2 v hv)⟩

theorem SoundAt.bind {a : Act α} {g : α → Act β} (ha : a.SoundAt c t Q)
    (hg : ∀ x, Q x → (g x).SoundAt c t R) : (a >>= g).SoundAt c t R := by
  intro s ht hs
  obtain ⟨hw, hn, hv⟩ := ha s ht hs
  rw [play_bind]
  rcases hp : a.play s with ⟨f | x, s'⟩
  · rw [hp] at hw hn
    exact ⟨hw, hn, fun _ hv => by cases hv⟩
  · rw [hp] at hw hn hv
    obtain ⟨hw', hn', hv'⟩ := hg x (hv x rfl) s' (hn.trans ht) (hw.allFit_of_now hs hn)
    exact ⟨hw.trans hn hw', hn'.trans hn, hv'⟩

theorem SoundAt.tryCatch {a : Act α} {g : Failure → Act α} (ha : a.SoundAt c t Q)
    (hg : ∀ f, (g f).SoundAt c t Q) : (tryCatch a g).SoundAt c t Q := by
  intro s ht hs
  obtain ⟨hw, hn, hv⟩ := ha s ht hs
  rw [play_tryCatch]
  rcases hp : a.play s with ⟨f | x, s'⟩
  · rw [hp] at hw hn
    obtain ⟨hw', hn', hv'⟩ := hg f s' (hn.trans ht) (hw.allFit_of_now hs hn)
    exact ⟨hw.trans hn hw', hn'.trans hn, hv'⟩
  · rw [hp] at hw hn hv
    exact ⟨hw, hn, hv⟩

theorem SoundAt.map {a : Act α} (h : a.SoundAt c t Q) (g : α → β) :
    (g <$> a).SoundAt c t fun _ => True := by
  intro s ht hs
  obtain ⟨hw, hn, -⟩ := h s ht hs
  rw [play_map]
  exact ⟨hw, hn, fun _ _ => trivial⟩

theorem readRecord_soundAt (key : String) :
    (readRecord key).SoundAt c t fun x => ∀ r, x = some r → r.Fit t ∧ 1 ≤ r.version := by
  rintro s rfl hs
  obtain ⟨s', ha, hp⟩ := readRecord_cases key s
  have hwrites : s.Soundly c s' := Scene.soundly_of_store ha.store
  rcases hp with hp | ⟨f, hp⟩ <;> rw [hp]
  · refine ⟨hwrites, ha.now, fun x hx r hr => ?_⟩
    rw [hr] at hx
    obtain ⟨r', hr', hfit, hv⟩ := hs _ (Store.mem_writes_of_lookup hx)
    cases hr'
    exact ⟨hfit, hv⟩
  · exact ⟨hwrites, ha.now, fun _ hv => by cases hv⟩

theorem writeRecord_soundAt (key : String) {r : Record} (h : r.next.Sound c t) :
    (writeRecord key r).SoundAt c t (· = r.next) := by
  rintro s rfl hs
  obtain ⟨s', ⟨x, -, -, hp, ha⟩ | ⟨f, hp, ha⟩⟩ := writeRecord_cases key r s <;> rw [hp]
  · refine ⟨⟨[(s.store.nameOf key, some r.next)], ?_, fun w hw => ?_⟩, ha.now, fun v hv => ?_⟩
    · rw [ha.store, Scene.keeping_store, Store.writes_kept]
      rfl
    · rw [List.mem_singleton.1 hw]
      exact ⟨r.next, rfl, h⟩
    · cases hv
      rfl
  · exact ⟨Scene.soundly_of_store ha.store, ha.now, fun _ hv => by cases hv⟩

end Act

namespace Breaker

open Act

variable {b : Breaker} {key : String} {t : Instant} {r : Record}

theorem asStoreFailure_soundAt {α : Type} {c : Config} {Q : α → Prop} {a : Act α}
    (h : a.SoundAt c t Q) (operation : String) : (asStoreFailure key operation a).SoundAt c t Q :=
  h.tryCatch fun _ => soundAt_throw _

theorem load_soundAt (b : Breaker) (key : String) (t : Instant) :
    (b.load key).SoundAt b.config t fun r => r.Fit t ∧ 0 ≤ r.version := by
  refine (asStoreFailure_soundAt (readRecord_soundAt key) "get").bind fun x hx => ?_
  cases x with
  | some r =>
      obtain ⟨hfit, hv⟩ := hx r rfl
      exact soundAt_pure ⟨hfit, by omega⟩
  | none =>
      refine soundAt_now.bind fun u hu => soundAt_ofTime fun r hr => ?_
      rw [← hu] at hr
      have he := Record.entered_of_entering hr
      obtain ⟨u, -, hu⟩ := he.windowEnds rfl
      have hs := he.status
      refine ⟨⟨?_, he.failureCount.ge, (he.failureCount.trans he.totalCount.symm).le,
        fun _ => ⟨he.successCount, u, hu⟩, fun ho => ?_, fun hh => ?_, fun hi => ?_⟩, he.version.ge⟩
      · rw [he.previousStatus]
        nofun
      · cases hs.symm.trans ho
      · cases hs.symm.trans hh
      · cases hs.symm.trans hi

theorem write_soundAt {c : Config} (key : String) (h : r.next.Sound c t) :
    (write key r).SoundAt c t (· = r.next) :=
  asStoreFailure_soundAt (writeRecord_soundAt key h) "set"

theorem save_soundAt (b : Breaker) (key : String) (h : r.next.Sound b.config t) :
    (b.save key r).SoundAt b.config t fun e => e = r.next ∨ e = r := by
  refine ((write_soundAt key h).weaken fun _ he => .inl he).tryCatch fun f => ?_
  split
  · exact (soundAt_of_utters (utters_note _ _)).bind fun _ _ => soundAt_pure (.inr rfl)
  · exact soundAt_throw _

theorem announce_soundAt (b : Breaker) (key : String) (old new : Status) :
    (b.announce key old new).SoundAt b.config t fun _ => True := by
  obtain ⟨out, es, hu, -, -⟩ := b.announce_utters key old new
  exact soundAt_of_utters hu

theorem tell_soundAt (b : Breaker) (o : Occurrence) :
    (b.tell o).SoundAt b.config t fun _ => True := by
  obtain ⟨out, es, hu, -, -⟩ := b.tell_utters o
  exact soundAt_of_utters hu

theorem sound_of_due (hc : b.config.check = .ok ()) (hfit : r.Fit t) (hv : 0 ≤ r.version)
    {target : Status} {e : Record} (hd : Record.due b.config r.status t r = .ok (some target))
    (he : b.enter target t r = .ok e) : e.next.Sound b.config t := by
  obtain ⟨entered, hent, rfl⟩ := enter_eq_ok he
  refine hent.sound hc (fun hp => Record.due_ne hd (Option.some.inj hp)) (fun ht => ?_) hv
  obtain ⟨hs, hu⟩ := hfit.probes (ht ▸ hd)
  exact ⟨congrArg some hs, hu⟩

/-- Advancing gives a record that fits, and one that can be stored if it was not stored at once. -/
theorem advance_soundAt (hc : b.config.check = .ok ()) (key : String) (hfit : r.Fit t)
    (hv : 0 ≤ r.version) (saving : Bool) :
    (b.advance key r saving).SoundAt b.config t fun e =>
      e.Fit t ∧ 0 ≤ e.version ∧ (saving = false → e.next.Sound b.config t) := by
  refine soundAt_now.bind fun u hu => ?_
  subst hu
  refine SoundAt.bind (soundAt_ofExcept fun _ h => h) fun due hd => ?_
  cases due with
  | none => exact soundAt_pure ⟨hfit, hv, fun _ => hfit.sound_of_due_none hd hv⟩
  | some target =>
      refine SoundAt.bind (soundAt_ofTime fun _ h => h) fun e he => ?_
      have hsound := sound_of_due hc hfit hv hd he
      have hefit := Record.fit_next.1 hsound.fit
      have hev : 0 ≤ e.version := by
        have := hsound.version
        change 1 ≤ e.version + 1 at this
        omega
      have htell : ∀ e' : Record, (e'.Fit t ∧ 0 ≤ e'.version ∧
          (saving = false → e'.next.Sound b.config t)) →
          (do b.announce key r.status target; pure e' : Act Record).SoundAt b.config t fun e =>
            e.Fit t ∧ 0 ≤ e.version ∧ (saving = false → e.next.Sound b.config t) :=
        fun e' he' => (b.announce_soundAt key _ _).bind fun _ _ => soundAt_pure he'
      cases saving with
      | false =>
          refine SoundAt.bind (soundAt_pure rfl) fun e' he' => htell e' ?_
          rw [← he']
          exact ⟨hefit, hev, fun _ => hsound⟩
      | true =>
          refine SoundAt.bind (b.save_soundAt key hsound) fun e' he' => htell e' ?_
          rcases he' with rfl | rfl
          · exact ⟨hsound.fit, Int.le_trans (by decide) hsound.version, nofun⟩
          · exact ⟨hefit, hev, nofun⟩

structure Opening.Ready (t : Instant) (o : Opening) : Prop where
  fit : o.record.Fit t
  version : 0 ≤ o.record.version
  status : o.status = o.record.status
  admits : o.status.rejects = false

theorem Opening.Ready.later {o : Opening} {u : Instant} (h : o.Ready t)
    (hu : u.reaches t = .ok true) : o.Ready u :=
  ⟨h.fit.later hu, h.version, h.status, h.admits⟩

theorem begin_soundAt (hc : b.config.check = .ok ()) (key : String) (t : Instant) :
    (b.begin key).SoundAt b.config t fun (o, permitted) =>
      o.record.Fit t ∧ 0 ≤ o.record.version ∧ (permitted = .ok () → o.Ready t) := by
  refine (b.load_soundAt key t).bind fun r hr => ?_
  refine (advance_soundAt hc key hr.1 hr.2 true).bind fun r hr => ?_
  obtain ⟨hfit, hv, -⟩ := hr
  refine SoundAt.bind (soundAt_of_alike fun s => ⟨_, s, play_monotonic s, .refl s⟩) fun started _ => ?_
  refine soundAt_now.bind fun u hu => soundAt_pure ?_
  subst hu
  have hv' : 0 ≤ (Record.permit b.config r.status key t r).1.version :=
    Record.version_permit.symm ▸ hv
  exact ⟨hfit.permit, hv', fun hp =>
    ⟨hfit.permit, hv', Record.status_permit.symm, Record.rejects_of_permit hp⟩⟩

theorem persist_soundAt (b : Breaker) (key : String) (h : r.next.Sound b.config t)
    (called : Option Failure) : (b.persist key r called).SoundAt b.config t fun _ => True := by
  refine SoundAt.tryCatch ((b.save_soundAt key h).map _) fun f => ?_
  cases called with
  | none => exact soundAt_throw f
  | some g =>
      dsimp only
      split
      · exact soundAt_throw _
      · exact soundAt_throw f

theorem finish_soundAt (hc : b.config.check = .ok ()) (key : String) {o : Opening}
    (hfit : o.record.Fit t) (hv : 0 ≤ o.record.version) (result : Except Failure Json) :
    (b.finish key o result).SoundAt b.config t fun _ => True := by
  have helapsed : o.elapsed.SoundAt b.config t fun _ => True :=
    soundAt_of_alike fun s => ⟨_, s, play_elapsed o s, .refl s⟩
  cases result with
  | ok v =>
      refine helapsed.bind fun _ _ => (advance_soundAt hc key hfit hv false).bind fun r hr => ?_
      exact (b.persist_soundAt key (hr.2.2 rfl) none).bind fun _ _ =>
        (b.tell_soundAt _).bind fun _ _ => soundAt_pure trivial
  | error f =>
      rw [finish]
      dsimp only
      split
      · refine helapsed.bind fun _ _ => (advance_soundAt hc key hfit hv false).bind fun r hr => ?_
        exact (b.persist_soundAt key (hr.2.2 rfl) (some f)).bind fun _ _ =>
          (b.tell_soundAt _).bind fun _ _ => soundAt_throw f
      · exact soundAt_throw f

theorem conclude_soundAt (hc : b.config.check = .ok ())
    (htotal : ∀ f, ∃ counted, b.config.counts f = .ok counted) (key : String) {o : Opening}
    (ho : o.Ready t) (result : Except Failure Json) :
    (b.conclude key o result).SoundAt b.config t fun _ => True := by
  obtain ⟨hfit, -⟩ := ho.fit.settle (ho.status ▸ ho.admits) htotal result
  rw [conclude_eq]
  refine finish_soundAt hc key ?_ ?_ _
  · dsimp only
    rw [ho.status]
    exact hfit
  · dsimp only
    rw [Record.version_settle]
    exact ho.version

theorem overwriteOnce_soundAt (hc : b.config.check = .ok ()) (key : String) {target : Status}
    (ht : target ≠ .halfOpen) (t : Instant) :
    (b.overwriteOnce key target).SoundAt b.config t fun _ => True := by
  refine (b.load_soundAt key t).bind fun r hr => soundAt_now.bind fun u hu => ?_
  subst hu
  refine SoundAt.bind (soundAt_ofTime fun _ h => h) fun e he => ?_
  obtain ⟨entered, hent, rfl⟩ := enter_eq_ok he
  refine SoundAt.bind (write_soundAt key ?_) fun _ _ => soundAt_pure trivial
  have hsound : ∀ previous, previous ≠ some target →
      ({ entered with previousStatus := previous } : Record).next.Sound b.config t :=
    fun previous hp => hent.sound hc hp (fun h => absurd h ht) hr.2
  split
  · rename_i hs
    exact hsound _ (hs ▸ hr.1.previous)
  · rename_i hs
    exact hsound _ fun hp => hs (Option.some.inj hp)

theorem enterCall_soundly (hc : b.config.check = .ok ())
    (htotal : ∀ f, ∃ counted, b.config.counts f = .ok counted) {w : Work} {s s' : Scene}
    {out : Except Failure Stage} (h : (b.enterCall key w).play s = (out, s')) (hs : s.AllFit) :
    s.Soundly b.config s' ∧ ∀ o, out = .ok (.running o) → o.Ready s.now := by
  obtain ⟨rfl, rfl⟩ : ((b.enterCall key w).play s).1 = out ∧ ((b.enterCall key w).play s).2 = s' := by
    rw [h]
    exact ⟨rfl, rfl⟩
  obtain ⟨hw, hn, hv⟩ := begin_soundAt hc key s.now s rfl hs
  rcases hp : (b.begin key).play s with ⟨f | ⟨o, f | u⟩, s₁⟩ <;>
    rw [hp] at hw hn hv <;> rw [play_enterCall w hp, goOn]
  · exact ⟨hw, fun _ ho => by cases ho⟩
  · obtain ⟨hfit, hver, -⟩ := hv _ rfl
    obtain ⟨hw', -, -⟩ :=
      (finish_soundAt hc key hfit hver (.error f)).map Stage.ended s₁ hn (hw.allFit_of_now hs hn)
    refine ⟨hw.trans hn hw', fun o' ho' => ?_⟩
    rw [play_map] at ho'
    cases hf : ((b.finish key o (.error f)).play s₁).1 <;> rw [hf] at ho' <;> cases ho'
  · obtain ⟨-, -, hready⟩ := hv _ rfl
    have hready := hready rfl
    obtain ⟨out, s₂, hst, hstarted⟩ := start_started w key s₁
    rw [hst]
    cases out with
    | ok u =>
        refine ⟨hw.trans hn (Scene.soundly_of_store hstarted.store), fun o' ho' => ?_⟩
        cases ho'
        exact hready
    | error f =>
        obtain ⟨-, hn₂, -⟩ := hstarted.failed f rfl
        have hstore : s₁.Soundly b.config s₂ := Scene.soundly_of_store hstarted.store
        have hfit₂ := hstore.allFit_of_now (hw.allFit_of_now hs hn) hn₂
        obtain ⟨hw', -, -⟩ := (conclude_soundAt hc htotal key hready (.error f)).map Stage.ended
          s₂ (hn₂.trans hn) hfit₂
        refine ⟨hw.trans hn (hstore.trans hn₂ hw'), fun o' ho' => ?_⟩
        dsimp only at ho'
        rw [play_map] at ho'
        cases hf : ((b.conclude key o (.error f)).play s₂).1 <;> rw [hf] at ho' <;> cases ho'

end Breaker

end KeyedBreaker
