import KeyedBreaker.Proofs.Breaker.Stride

namespace KeyedBreaker

open Act

namespace Breaker

variable {α β : Type} {b : Breaker} {key : String} {target? : Option Status} {polite : Prop}
  {p₀ p p' : Stance} {s₀ s s' : Scene} {r : Record}

def lands (g : α → Stance) : Except Failure α → Stance
  | .ok x => g x
  | .error f => .parting (.error f)

/-- In the course of a call or an overwrite, the action leads from one place to others. -/
def Brings (b : Breaker) (key : String) (target? : Option Status) (polite : Prop) (a : Act α)
    (p : Stance) (g : α → Stance) : Prop :=
  a.Takes (b.course key target? polite) p fun r p' => p' = lands g r

theorem Brings.bind {a : Act α} {k : α → Act β} {g : α → Stance} {h : β → Stance}
    (ha : b.Brings key target? polite a p g)
    (hk : ∀ x, b.Brings key target? polite (k x) (g x) h) :
    b.Brings key target? polite (a >>= k) p h := by
  refine Takes.bind ha (fun x p' hp => ?_) fun f p' hp => hp
  subst hp
  exact hk x

theorem Brings.map {a : Act α} {g : α → Stance} {k : α → β} {h : β → Stance}
    (ha : b.Brings key target? polite a p g) (hg : ∀ x, g x = h (k x)) :
    b.Brings key target? polite (k <$> a) p h := by
  refine Takes.map ha fun r p' hp => ?_
  cases r with
  | ok x => exact hp.trans (hg x)
  | error f => exact hp

theorem brings_pure {x : α} {g : α → Stance} (h : p = g x) :
    b.Brings key target? polite (pure x) p g := takes_pure h

theorem brings_throw {f : Failure} {g : α → Stance} (h : p = .parting (.error f)) :
    b.Brings key target? polite (throw f) p g := takes_throw h

theorem brings_ofExcept {x : Except Failure α} {g : α → Stance} (h : p = lands g x) :
    b.Brings key target? polite (ofExcept x) p g := by
  cases x with
  | ok x => exact brings_pure h
  | error f => exact brings_throw h

theorem leads_stride (h : (b.course key target? polite).leads p₀ s₀ p s)
    (hs : b.Stride key target? polite p s p' s') (hq : s'.Quiet) (hp : p'.Placed key s') :
    (b.course key target? polite).leads p₀ s₀ p' s' := ⟨h.1.tail hs, hq, hp⟩

theorem leads_tick (h : (b.course key target? polite).leads p₀ s₀ p s) {t : Instant}
    (ht : t.reaches s.now = .ok true) :
    (b.course key target? polite).leads p₀ s₀ p { s with now := t } :=
  ⟨h.1.tail (.ticks ht), h.2.1, by cases p <;> exact h.2.2⟩

theorem leads_seeing (h : (b.course key target? polite).leads p₀ s₀ p s) {es : List Event}
    (hes : ∀ e ∈ es, e.Plain ∧ ∀ k, e.transition? k = none) :
    (b.course key target? polite).leads p₀ s₀ p (s.seeing es) :=
  ⟨h.1.tail (.talks hes), h.2.1, by cases p <;> exact h.2.2⟩

theorem leads_of_resumes (h : (b.course key target? polite).resumes p s) :
    (b.course key target? polite).leads p s p s := ⟨.refl, h.1, h.2⟩

theorem takes_emit {e : Event} (h : e.Plain ∧ ∀ k, e.transition? k = none) :
    (emit e).Takes (b.course key target? polite) p fun r p' => r = .ok () ∧ p' = p :=
  fun _ _ _ hl => (atomic_emit e).ensures
    ⟨p, leads_seeing hl fun _ he => List.mem_singleton.1 he ▸ h, rfl, rfl⟩

theorem brings_emit {e : Event} (h : e.Plain ∧ ∀ k, e.transition? k = none) :
    b.Brings key target? polite (emit e) p fun _ => p :=
  (takes_emit h).mono fun _ _ ⟨hr, hp⟩ => by rw [hr, hp]; rfl

section Telling

variable {o : Occurrence}

theorem takes_hear (hp : p.Tells) {l : Listener} (hl : polite → l.Polite) (i j : Nat) :
    (l.hear i j o).Takes (b.course key target? polite) p fun r p' =>
      p' = p ∧ ∀ f, r = .error f → polite → f.isOrdinary = true := by
  cases l with
  | showing failure? =>
      have hheard : (Event.heard i j o).Plain ∧ ∀ k, (Event.heard i j o).transition? k = none :=
        ⟨⟨rfl, rfl⟩, fun _ => rfl⟩
      refine Takes.bind (takes_emit hheard) (fun _ p' hp' => ?_) fun f p' hp' => nomatch hp'.1
      obtain ⟨-, rfl⟩ := hp'
      refine Takes.bind (takes_hold hp fun s hs => leads_of_resumes hs) (fun _ p'' hp'' => ?_) ?_
      · obtain ⟨rfl, -⟩ := hp''
        cases hf : failure? o with
        | none => exact takes_pure ⟨rfl, fun f h => nomatch h⟩
        | some f =>
            refine takes_throw ⟨rfl, fun g hg hpolite => ?_⟩
            cases hg
            exact hl hpolite o f hf
      · rintro f p'' ⟨rfl, hanswers⟩
        exact ⟨rfl, fun g hg hpolite => hanswers hpolite g hg⟩
  | logging =>
      unfold Listener.hear
      cases hn : Notice.ofOccurrence? o with
      | none => exact takes_pure ⟨rfl, fun f h => nomatch h⟩
      | some n =>
          have hplain : (Event.noted (.listener i j) n).Plain :=
            Listener.plain_of_mem_shows (i := i) (j := j) (o := o) (l := .logging)
              (by simp [Listener.shows, hn])
          refine (takes_emit ⟨hplain, fun _ => rfl⟩).mono fun r p' hp' => ⟨hp'.2, fun f hf => ?_⟩
          rw [hp'.1] at hf
          cases hf

theorem brings_tellFrom (hp : p.Tells) (ls : List Listener) (hls : polite → ∀ l ∈ ls, l.Polite)
    (i : Nat) : b.Brings key target? polite (b.tellFrom o i ls) p fun _ => p := by
  induction ls generalizing i with
  | nil => exact brings_pure rfl
  | cons l ls ih =>
      refine Brings.bind (Takes.tryCatch
        (takes_hear hp (fun h => hls h l List.mem_cons_self) b.number i) ?_ ?_)
        fun _ => ih (fun h l' hl' => hls h l' (List.mem_cons_of_mem _ hl')) (i + 1)
      · rintro ⟨⟩ p' ⟨rfl, -⟩
        rfl
      · rintro f p' ⟨rfl, hpolite⟩
        split
        · exact brings_emit ⟨⟨rfl, rfl⟩, fun _ => rfl⟩
        · rename_i hf
          have hf : f.isOrdinary = false := Bool.eq_false_iff.2 hf
          intro p₀ s₀ s hl
          refine ⟨.parting (.error f),
            leads_stride hl (.interrupted hp (fun h => ?_) hf) hl.2.1 trivial, rfl⟩
          rw [hpolite f rfl h] at hf
          cases hf

theorem brings_tell (hp : p.Tells) (hb : polite → b.Polite) :
    b.Brings key target? polite (b.tell o) p fun _ => p := brings_tellFrom hp b.listeners hb 0

end Telling

theorem weathers_of_leads {rs : List Record} {es : List Event} {a : Act α} {out : Except Failure α}
    (hclock : a.Keeps SameClock) (hstarts : a.Keeps SameStarts) (hlogged : a.Keeps SameLogged)
    (h : a.play s = (out, s')) (hl : s.Leads key rs es s') : s.Weathers key rs [] s' :=
  weathers_of_keeps hclock hstarts hlogged h hl.store

theorem plain_of_read (st : Store) (key : String) : ∀ e ∈ st.readEvents key ++ [.storeRead key],
    e.Plain ∧ ∀ k, e.transition? k = none := by
  intro e he
  rcases List.mem_append.1 he with he | he
  · refine ⟨st.plain_readEvents key e he, fun k => ?_⟩
    cases st with
    | memory writes => cases he
    | shared keyPrefix client =>
        rw [List.mem_singleton.1 he]
        rfl
  · rw [List.mem_singleton.1 he]
    exact ⟨⟨rfl, rfl⟩, fun _ => rfl⟩

theorem takes_load : (b.load key).Takes (b.course key target? polite) .fresh fun r p =>
    p = lands .loaded r ∧ ∀ f, r = .error f → f.isA .stale = false := by
  intro p₀ s₀ s hl
  have hread : (asStoreFailure key "get" (readRecord key)).play s =
      (s.store.lookup key, s.seeing (s.store.readEvents key ++ [.storeRead key])) :=
    play_asStoreFailure (play_readRecord key hl.2.1) fun f hf => isA_store_of_lookup hf
  have hseen := leads_seeing hl (plain_of_read s.store key)
  have hfails : ∀ {p₀ s₀ s f}, (b.course key target? polite).leads p₀ s₀ .fresh s →
      b.loaded s.now (s.store.lookup key) = .error f →
      ∃ p', (b.course key target? polite).leads p₀ s₀ p' s ∧ p' = .parting (.error f) ∧
        ∀ g, (.error f : Except Failure Record) = .error g → g.isA .stale = false :=
    fun hl hf => ⟨_, leads_stride hl (.unloaded hf) hl.2.1 trivial, rfl, fun g hg => by
      cases hg
      exact isA_stale_of_loaded hf⟩
  refine Ensures.bind (Atomic.ensures ((atomic_readRecord key).tryCatch fun _ => atomic_throw _) ?_)
  rw [hread]
  cases hx : s.store.lookup key with
  | error f => exact hfails hseen (by rw [Scene.seeing_store, hx]; rfl)
  | ok x =>
      cases x with
      | some r =>
          exact ⟨_, leads_stride hseen (.loads (by rw [Scene.seeing_store, hx]; rfl)) hseen.2.1
            ⟨_, hx, rfl⟩, rfl, nofun⟩
      | none =>
          refine Ensures.bind (ensures_now fun t ht => ?_)
          have hseen := leads_tick hseen ht
          change (ofExcept (b.loaded t (.ok none)) : Act Record).Ensures _ _ _ _ _
          cases hr : b.loaded t (.ok none) with
          | error f => exact hfails hseen (hx ▸ hr)
          | ok r =>
              exact ⟨_, leads_stride hseen (.loads (hx ▸ hr)) hseen.2.1
                ⟨_, hx, versionOf_loaded hr⟩, rfl, nofun⟩

theorem brings_load : b.Brings key target? polite (b.load key) .fresh .loaded :=
  takes_load.mono fun _ _ h => h.1

def advanceAt (b : Breaker) (key : String) (r : Record) (saving : Bool) (t : Instant) :
    Act Record :=
  match b.change t r with
  | .error f => throw f
  | .ok none => pure r
  | .ok (some (target, e)) => do
    let e ← if saving then b.save key e else pure e
    b.announce key r.status target
    pure e

theorem advance_eq (b : Breaker) (key : String) (r : Record) (saving : Bool) :
    b.advance key r saving = now >>= b.advanceAt key r saving := by
  refine congrArg (now >>= ·) (funext fun t => ?_)
  unfold advanceAt change
  cases Record.due b.config r.status t r with
  | error f => rfl
  | ok due =>
      cases due with
      | none => rfl
      | some target =>
          change (ofTime (b.enter target t r) >>= fun e => _) = _
          dsimp only
          cases b.enter target t r <;> rfl

theorem weathers_noted (b : Breaker) (key : String) (old new : Status) (s : Scene) :
    s.Weathers key [] [(old, new)]
      (s.seeing [.noted (.breaker b.number) (.transition key old new)]) := by
  refine ⟨rfl, rfl, .refl, rfl, fun other => ?_⟩
  rw [Scene.logged, Scene.seeing_events, List.filterMap_append]
  refine congrArg (· ++ _) ?_
  by_cases hk : other = key
  · subst hk
    simp [Event.transition?]
  · simp [Event.transition?, hk, Ne.symm hk]

theorem save_weathers_of_leads {e e' : Record} {rs : List Record} {es : List Event}
    (h : (b.save key e).play s = (.ok e', s')) (hl : s.Leads key rs es s') :
    s.Weathers key rs [] s' :=
  weathers_of_leads (b.keeps_save key sameClock_steady.toStoreSteady e)
    (b.keeps_save key sameStarts_steady.toStoreSteady e) (b.keeps_save key sameLogged_steady e) h hl

/-- What is certain where an action has come that is to lead to these places. -/
def Arrives (b : Breaker) (key : String) (target? : Option Status) (polite : Prop) (g : α → Stance)
    (r : Except Failure α) (p : Stance) (s₀ s : Scene) : Prop :=
  ∃ p', (b.course key target? polite).leads p s₀ p' s ∧ p' = lands g r

theorem announce_ensures {old new : Status} {e : α} {g : α → Stance} (hp : p.Tells)
    (hb : polite → b.Polite)
    (hl : (b.course key target? polite).leads p₀ s₀ p
      (s.seeing [.noted (.breaker b.number) (.transition key old new)]))
    (hg : ∀ {p₀ s₀ s}, (b.course key target? polite).leads p₀ s₀ p s →
      (b.course key target? polite).leads p₀ s₀ (g e) s) :
    (do b.announce key old new; pure e : Act α).Ensures (b.course key target? polite)
      (b.Arrives key target? polite g) p₀ s₀ s := by
  refine Ensures.bind (Ensures.bind ((atomic_emit _).ensures ?_))
  refine (brings_tell hp hb p₀ s₀ _ hl).mono ?_
  rintro (f | u) p₁ s₁ s' ⟨p', hleads, rfl⟩
  · exact ⟨_, hleads, rfl⟩
  · exact ⟨_, hg hleads, rfl⟩

theorem brings_advance (hcall : target? = none) (hb : polite → b.Polite) :
    b.Brings key target? polite (b.advance key r true) (.loaded r) .admitted := by
  rw [advance_eq]
  intro p₀ s₀ s hl
  refine Ensures.bind (ensures_now fun t ht => ?_)
  have hl := leads_tick hl ht
  obtain ⟨x, hx, hv⟩ := hl.2.2
  change (b.advanceAt key r true t).Ensures _ _ _ _ _
  unfold advanceAt
  cases hc : b.change t r with
  | error f => exact ⟨_, leads_stride hl (.unadvanced hcall hc) hl.2.1 trivial, rfl⟩
  | ok change =>
      cases change with
      | none => exact ⟨_, leads_stride hl (.stays hcall hc) hl.2.1 ⟨x, hx⟩, rfl⟩
      | some d =>
          obtain ⟨target, e⟩ := d
          obtain ⟨s', hp, hs'⟩ := b.save_leads hl.2.1 hx ((version_change hc).trans hv)
          have hw := (save_weathers_of_leads hp hs').trans (b.weathers_noted key r.status target s')
          refine Ensures.bind ((b.atomic_save key e).ensures ?_)
          rw [hp]
          refine announce_ensures (p := .announcing e.next) trivial hb ?_ fun hl =>
            leads_stride hl .announced hl.2.1 hl.2.2
          exact leads_stride hl (.moves hcall hc hw) (hs'.quiet hl.2.1) ⟨_, hw.store.lookup hx⟩

theorem brings_renewal (hb : polite → b.Polite) (result : Except Failure Json) :
    b.Brings key target? polite (b.advance key r false) (.settled r result) (.due · result) := by
  rw [advance_eq]
  intro p₀ s₀ s hl
  refine Ensures.bind (ensures_now fun t ht => ?_)
  have hl := leads_tick hl ht
  change (b.advanceAt key r false t).Ensures _ _ _ _ _
  unfold advanceAt
  cases hc : b.change t r with
  | error f => exact ⟨_, leads_stride hl (.unrenewed hc) hl.2.1 trivial, rfl⟩
  | ok change =>
      cases change with
      | none => exact ⟨_, leads_stride hl (.rests hc) hl.2.1 hl.2.2, rfl⟩
      | some d =>
          obtain ⟨target, e⟩ := d
          refine announce_ensures (p := .owing e result) trivial hb ?_ fun hl =>
            leads_stride hl .told hl.2.1 hl.2.2
          exact leads_stride hl (.owes hc (b.weathers_noted key r.status target _)) hl.2.1 hl.2.2

theorem brings_persist (called : Option Failure) (result : Except Failure Json) :
    b.Brings key target? polite (b.persist key r called) (.due r result)
      fun _ => .parting (result.map .value) := by
  intro p₀ s₀ s hl
  obtain ⟨x, hx⟩ := hl.2.2
  refine (b.atomic_persist key r called).ensures ?_
  by_cases hv : r.version = Record.versionOf x
  · obtain ⟨s', hp, hs'⟩ := b.save_leads hl.2.1 hx hv
    rw [persist_of_save hp]
    exact ⟨_, leads_stride hl (.saves hx hv (save_weathers_of_leads hp hs')) (hs'.quiet hl.2.1)
      trivial, rfl⟩
  · obtain ⟨s', hp, hs'⟩ := b.save_leads_stale hl.2.1 hx hv
    rw [persist_of_save hp]
    exact ⟨_, leads_stride hl (.drops hx hv (save_weathers_of_leads hp hs')) (hs'.quiet hl.2.1)
      trivial, rfl⟩

theorem brings_tail (hb : polite → b.Polite) (o : Opening) (called : Option Failure)
    (occurrence : Binary64 → Occurrence) (result : Except Failure Json) :
    b.Brings key target? polite (do
        let elapsed ← o.elapsed
        let r ← b.advance key o.record false
        b.persist key r called
        b.tell (occurrence elapsed)
        ofExcept result : Act Json) (.settled o.record result) fun v => .parting (.ok (.value v)) := by
  have helapsed : b.Brings key target? polite o.elapsed (.settled o.record result)
      fun _ => .settled o.record result := fun _ _ s hl => ⟨_, hl, rfl⟩
  refine helapsed.bind fun elapsed => (brings_renewal hb result).bind fun r =>
    (brings_persist called result).bind fun _ =>
      (brings_tell (p := .parting (result.map .value)) trivial hb).bind fun _ => ?_
  refine brings_ofExcept ?_
  cases result <;> rfl

theorem brings_finish (hb : polite → b.Polite) (o : Opening) (result : Except Failure Json) :
    b.Brings key target? polite (b.finish key o result) (.settled o.record result)
      fun v => .parting (.ok (.value v)) := by
  cases result with
  | ok v => exact brings_tail hb o none (.succeeded key) (.ok v)
  | error f =>
      rw [finish]
      cases hf : f.isOrdinary with
      | false =>
          intro p₀ s₀ s hl
          exact ⟨_, leads_stride hl (.discards hf) hl.2.1 trivial, rfl⟩
      | true => exact brings_tail hb o (some f) (.ofFailure key o.status f) (.error f)

theorem brings_conclude (hb : polite → b.Polite) (o : Opening) (result : Except Failure Json) :
    b.Brings key target? polite (b.conclude key o result)
      (.settled (Record.settle b.config o.status o.record result).1
        (Record.settle b.config o.status o.record result).2) fun v => .parting (.ok (.value v)) :=
  brings_finish hb { o with record := (Record.settle b.config o.status o.record result).1 }
    (Record.settle b.config o.status o.record result).2

def Stage.stance : Stage → Stance
  | .running o => .running o
  | .ended v => .parting (.ok (.value v))

def proceed (b : Breaker) (key : String) (r : Record) (started : Binary64) (t : Instant) :
    Act Stage :=
  match (Record.permit b.config r.status key t r).2 with
  | .error f => Stage.ended <$> b.finish key (b.opening key t started r) (.error f)
  | .ok () => do
    emit (.started key)
    pure (.running (b.opening key t started r))

theorem enterCall_eq (b : Breaker) (key : String) :
    b.enterCall key {} = b.load key >>= fun r => b.advance key r true >>= fun e =>
      monotonic >>= fun started => now >>= b.proceed key e started := by
  rw [enterCall, begin]
  simp only [bind_assoc, pure_bind]
  refine congrArg (b.load key >>= ·) (funext fun r => congrArg (b.advance key r true >>= ·)
    (funext fun e => congrArg (monotonic >>= ·) (funext fun started =>
      congrArg (now >>= ·) (funext fun t => ?_))))
  unfold proceed opening
  rcases Record.permit b.config e.status key t e with ⟨e', f | ⟨⟩⟩
  · exact (map_eq_pure_bind _ _).symm
  · rfl

theorem brings_enterCall (hcall : target? = none) (hb : polite → b.Polite) :
    b.Brings key target? polite (b.enterCall key {}) .fresh Stage.stance := by
  rw [enterCall_eq]
  refine brings_load.bind fun r => (brings_advance hcall hb).bind fun e => ?_
  intro p₀ s₀ s hl
  refine Ensures.bind (Atomic.ensures (fun _ => trivial) ?_)
  refine Ensures.bind (ensures_now fun t ht => ?_)
  have hl := leads_tick hl ht
  change (b.proceed key e s.monotonic t).Ensures _ _ _ _ _
  unfold proceed
  cases hp : (Record.permit b.config e.status key t e).2 with
  | error f =>
      have hends : b.Brings key target? polite
          (Stage.ended <$> b.finish key (b.opening key t s.monotonic e) (.error f))
          (.settled (b.opening key t s.monotonic e).record (.error f)) Stage.stance :=
        (brings_finish hb (b.opening key t s.monotonic e) (.error f)).map fun _ => rfl
      exact hends p₀ s₀ _ (leads_stride hl (.rejects hp) hl.2.1 hl.2.2)
  | ok u => exact ⟨_, leads_stride hl (.starts hp) hl.2.1 hl.2.2, rfl⟩

def Upshot.stance : Upshot → Stance
  | .running o => .running o
  | .again => .retrying
  | .answered a => .parting (.ok a)

def overwriteAt (b : Breaker) (key : String) (target : Status) (r : Record) (t : Instant) :
    Act (Status × Record) :=
  match b.forced target t r with
  | .error err => throw (.time err)
  | .ok e => (r.status, ·) <$> write key e

theorem overwriteOnce_eq (b : Breaker) (key : String) (target : Status) :
    b.overwriteOnce key target = b.load key >>= fun r => now >>= b.overwriteAt key target r := by
  rw [overwriteOnce]
  refine congrArg (b.load key >>= ·) (funext fun r => congrArg (now >>= ·) (funext fun t => ?_))
  unfold overwriteAt forced
  cases b.enter target t r with
  | error err => rfl
  | ok e => exact (map_eq_pure_bind _ (write key _)).symm

/-- No overwrite tries again for a failure other than a conflict. -/
theorem rethrown_ensures {target : Status} {attempt : Nat} {f : Failure} (hf : f.isA .stale = false)
    (hl : (b.course key target? polite).leads p₀ s₀ (.parting (.error f)) s) :
    (if f.isA .stale && attempt < b.policy.attempts then do
        b.backOff key target attempt
        pure .again
      else throw f : Act Upshot).Ensures (b.course key target? polite)
      (b.Arrives key target? polite Upshot.stance) p₀ s₀ s := by
  rw [hf]
  exact ⟨_, hl, rfl⟩

theorem write_weathers_of_leads {e e' : Record} {rs : List Record} {es : List Event}
    (h : (write key e).play s = (.ok e', s')) (hl : s.Leads key rs es s') :
    s.Weathers key rs [] s' :=
  weathers_of_leads (keeps_write key sameClock_steady.toAccessSteady e)
    (keeps_write key sameStarts_steady.toAccessSteady e)
    (keeps_write key sameLogged_steady.toAccessSteady e) h hl

/-- The write of an overwrite and the word that its breaker's log has of it are one stride: no other
task runs between them. -/
theorem confirm_ensures {target : Status} {e : Record} {s₁ : Scene}
    (hforce : target? = some target) (hb : polite → b.Polite)
    (hl : (b.course key target? polite).leads p₀ s₀ (.loaded r) s)
    (he : b.forced target s.now r = .ok e) (hw : s.Weathers key [e.next] [] s₁) (hq : s₁.Quiet) :
    (b.confirm key target r.status >>= fun _ =>
      pure (.answered (.record (some e.next))) : Act Upshot).Ensures (b.course key target? polite)
      (b.Arrives key target? polite Upshot.stance) p₀ s₀ s₁ := by
  unfold confirm
  by_cases hsame : r.status = target
  · rw [if_pos hsame]
    refine ⟨_, leads_stride hl (.forces hforce he ?_) hq trivial, rfl⟩
    rw [if_pos hsame]
    exact hw
  · rw [if_neg hsame]
    refine announce_ensures (p := .parting (.ok (.record (some e.next)))) trivial hb ?_ id
    refine leads_stride hl (.forces hforce he ?_) hq trivial
    rw [if_neg hsame]
    exact hw.trans (b.weathers_noted key r.status target s₁)

theorem brings_enforce {target : Status} (hforce : target? = some target) (hb : polite → b.Polite)
    (attempt : Nat) :
    b.Brings key target? polite (b.enforce key target attempt) .fresh Upshot.stance := by
  intro p₀ s₀ s hl
  rw [enforce, overwriteOnce_eq]
  refine Ensures.bind (Ensures.tryCatch (Ensures.bind (Ensures.bind
    ((takes_load p₀ s₀ s hl).mono ?_))))
  rintro (f | r) p₁ s₁ s₂ ⟨p', hl, rfl, hstale⟩
  · exact rethrown_ensures (hstale f rfl) hl
  · refine Ensures.bind (ensures_now fun t ht => ?_)
    have hl := leads_tick hl ht
    obtain ⟨x, hx, hv⟩ := hl.2.2
    change (b.overwriteAt key target r t).Ensures _ _ _ _ _
    unfold overwriteAt
    cases he : b.forced target t r with
    | error err =>
        exact rethrown_ensures (isA_stale_time err)
          (leads_stride hl (.unforced hforce he) hl.2.1 trivial)
    | ok e =>
        obtain ⟨s', hp, hs'⟩ := write_leads hl.2.1 hx ((version_forced he).trans hv)
        refine Ensures.map ((atomic_write key e).ensures ?_)
        rw [hp]
        exact confirm_ensures hforce hb hl he (write_weathers_of_leads hp hs') (hs'.quiet hl.2.1)

end Breaker

theorem Act.Halt.Ensures.exists_leads {α : Type} {b : Breaker} {key : String}
    {target? : Option Status} {polite : Prop} {g : α → Breaker.Stance} {p : Breaker.Stance}
    {s₀ s : Scene} {halt : Halt α} (h : halt.Ensures (b.course key target? polite)
      (b.Arrives key target? polite g) p s₀ s) :
    ∃ p', (b.course key target? polite).leads p s₀ p' s := by
  cases halt with
  | ended result => exact h.imp fun _ hp => hp.1
  | waiting next => exact h.imp fun _ hp => hp.2.1

end KeyedBreaker
