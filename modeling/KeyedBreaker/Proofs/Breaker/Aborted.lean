import KeyedBreaker.Proofs.Breaker.Phantom
import KeyedBreaker.Proofs.Breaker.Told
import KeyedBreaker.Proofs.Breaker.Weathered
import KeyedBreaker.Proofs.Record.Sound

namespace KeyedBreaker

open Act

namespace Act

variable {α β : Type} {a : Act α} (key : String) (r : Record) (s : Scene)

def Untried (a : Act α) : Prop := ∀ s, (a.play s).2.tries = s.tries

theorem Untried.bind {g : α → Act β} (ha : a.Untried) (hg : ∀ x, (g x).Untried) :
    (a >>= g).Untried := by
  intro s
  have h := ha s
  rw [play_bind]
  rcases hp : a.play s with ⟨f | x, s'⟩ <;> rw [hp] at h
  · exact h
  · exact (hg x s').trans h

theorem untried_emit {e : Event} (h : e.isTry = false) : (emit e).Untried := by
  intro s
  rw [play_emit, Scene.tries, Scene.seeing_events, List.filter_append, List.filter_singleton, h]
  rfl

theorem untried_of_still {out : Scene → Except Failure α} (h : ∀ s, a.play s = (out s, s)) :
    a.Untried := fun s => by rw [h]

theorem nextFault_untried (access : Access) : (nextFault access).Untried := by
  intro s
  rw [nextFault, play_get_bind]
  cases s.faults access <;> rfl

theorem meetClient_untried (access : Access) (operation : String) :
    (meetClient access key operation).Untried := by
  refine (nextFault_untried access).bind fun fault => ?_
  cases fault <;> exact fun _ => rfl

theorem fetch_untried : (fetch key).Untried := by
  intro s
  rw [fetch, play_get_bind]
  cases s.store with
  | memory writes => rfl
  | shared keyPrefix client =>
      refine Untried.bind (untried_emit rfl) (fun _ => ?_) s
      refine (meetClient_untried key _ _).bind fun _ => ?_
      exact untried_of_still fun s => play_answer key s _

theorem keep_untried : (keep key r).Untried := by
  intro s
  rw [keep, play_get_bind]
  cases s.store with
  | memory writes => rfl
  | shared keyPrefix client =>
      refine Untried.bind (untried_emit rfl) (fun _ => ?_) s
      exact (meetClient_untried key _ _).bind fun _ _ => rfl

theorem readRecord_untried : (readRecord key).Untried := by
  refine Untried.bind (untried_emit rfl) fun _ => (nextFault_untried _).bind fun fault => ?_
  cases fault with
  | raise f => exact fun _ => rfl
  | pass | stale => exact fetch_untried key

theorem tries_writeRecord :
    ((writeRecord key r).play s).2.tries = .storeWrite key r.version :: s.tries := by
  let seen := s.seeing [.storeWrite key r.version]
  have he : (emit (.storeWrite key r.version)).play s = (.ok (), seen) := rfl
  rw [writeRecord, play_bind_ok s he]
  refine Untried.bind (nextFault_untried _) (fun fault => ?_) seen
  cases fault with
  | raise f | stale v => exact fun _ => rfl
  | pass =>
      refine (fetch_untried key).bind fun x => ?_
      dsimp only
      split
      · exact (keep_untried key _).bind fun _ _ => rfl
      · exact fun _ => rfl

end Act

namespace Record

variable {c : Config} {t : Instant} {r e : Record} {target : Status}

/-- What a transition puts in place of a record: one without counts, one version on. -/
structure Replaces (target : Status) (r e : Record) : Prop where
  status : e.status = target
  previousStatus : e.previousStatus = some r.status
  version : e.version = r.version + 1
  failureCount : e.failureCount = 0
  totalCount : e.totalCount = 0
  successCount : e.successCount = 0

structure Fresh (r : Record) : Prop where
  admits : r.status.rejects = false
  failureCount : r.failureCount = 0
  totalCount : r.totalCount = 0
  successCount : r.successCount = 0

theorem Replaces.fresh (h : Replaces target r e) (ht : target.rejects = false) : e.Fresh :=
  ⟨h.status ▸ ht, h.failureCount, h.totalCount, h.successCount⟩

theorem Entered.fresh (h : Entered c target t r e) (ht : target.rejects = false) : e.Fresh :=
  ⟨h.status ▸ ht, h.failureCount, h.totalCount, h.successCount⟩

theorem opens_of_no_calls (h : r.totalCount = 0) : opens c t r ≠ .ok true := by
  cases hw : r.windowExpired t with
  | error e =>
      rw [opens, hw]
      exact fun h => by cases h
  | ok passed =>
      cases passed with
      | true =>
          rw [opens_of_expired hw]
          exact fun h => by cases h
      | false =>
          rw [opens_of_running hw, failureRatio, if_pos h]
          split <;> exact fun h => by cases h

theorem Fresh.due (h : r.Fresh) (hc : r.status = .halfOpen → 1 ≤ c.successThreshold) :
    due c r.status t r ≠ .ok (some target) := by
  intro hdue
  have howes := owes_of_due hdue
  have hadmits := h.admits
  generalize hs : r.status = status at howes hadmits
  cases howes with
  | opens ho => exact opens_of_no_calls h.totalCount ho
  | probes => cases hadmits
  | reopens hf =>
      rw [h.failureCount] at hf
      exact absurd hf (lt_irrefl _)
  | closes _ hsucc =>
      have hthreshold := hc hs
      rw [h.successCount] at hsucc
      omega

end Record

namespace Breaker

variable {b : Breaker} {key : String} {s s' : Scene} {r e : Record} {target : Status} {o : Opening}

theorem tries_announce (b : Breaker) (key : String) (old new : Status) (s : Scene) :
    ((b.announce key old new).play s).2.tries = s.tries := by
  obtain ⟨out, es, hu, hes, -⟩ := b.announce_utters key old new
  rw [hu s]
  exact Scene.tries_seeing hes

theorem replaces_of_change {t : Instant} (h : b.change t r = .ok (some (target, e))) :
    r.Replaces target e.next := by
  obtain ⟨entered, hent, rfl⟩ := enter_eq_ok (change_eq_some h).2
  exact ⟨hent.status, rfl, congrArg (· + 1) hent.version, hent.failureCount, hent.totalCount,
    hent.successCount⟩

/-- Only a record that was found is due for a transition: a circuit without a record has counted nothing. -/
theorem found_of_change {x : Option Record} {t : Instant} (hl : b.loaded t (.ok x) = .ok r)
    (h : b.change t r = .ok (some (target, e))) : x = some r := by
  obtain rfl | ⟨-, hent⟩ := loaded_cases hl
  · rfl
  · have hfresh : r.Fresh := hent.fresh rfl
    refine absurd (change_eq_some h).1 (hfresh.due fun hs => ?_)
    rw [hent.status] at hs
    cases hs

theorem of_announced {old new : Status} {v w : Record}
    (h : (do b.announce key old new; pure v : Act Record).play s = (.ok w, s')) :
    w = v ∧ s'.store = s.store ∧ s'.news = b.tidings key old new ++ s.news ∧ s'.tries = s.tries := by
  obtain ⟨rfl, hstore, hnews⟩ := of_announce_then h
  refine ⟨rfl, hstore, hnews, ?_⟩
  obtain ⟨u, s₁, hp, h⟩ := exists_of_play_bind s h
  obtain rfl : s₁ = s' := congrArg Prod.snd h
  have htries := b.tries_announce key old new s
  rw [hp] at htries
  exact htries

/-- What a call has done by the time its function starts, where this was read for its key: nothing, as
the circuit lets calls through; or it has made the transition that was due, stored its entry once, and
announced it once. -/
inductive Prepared (b : Breaker) (key : String) (s : Scene) (x : Option Record) :
    Option Record → Scene → Prop
  | still {s' : Scene} :
      (∀ r, x = some r → b.change s.now r = .ok none ∧ r.status.rejects = false) →
      s'.store = s.store → s'.news = s.news → s'.tries = s.tries → Prepared b key s x none s'
  | moved {r e : Record} {target : Status} {s' : Scene} : x = some r →
      Record.due b.config r.status s.now r = .ok (some target) → target.rejects = false →
      r.Replaces target e → s'.store = s.store.kept key e →
      s'.news = b.tidings key r.status target ++ s.news →
      s'.tries = .storeWrite key r.version :: s.tries → Prepared b key s x (some e) s'

theorem begin_prepares (hfirst : ∀ f, b.firstWrite? key s ≠ some (.error f))
    (h : (b.begin key).play s = (.ok (o, .ok ()), s')) :
    ∃ x entry, s.store.lookup key = .ok x ∧ b.Prepared key s x entry s' := by
  obtain ⟨r, s₁, hload, h⟩ := exists_of_play_bind s h
  obtain ⟨e, s₂, hadvance, h⟩ := exists_of_play_bind s₁ h
  rw [begin_tail] at h
  obtain ⟨hpermitted, rfl⟩ := Prod.mk.inj h
  have hadmits : e.status.rejects = false :=
    Record.rejects_of_permit (congrArg Prod.snd (Except.ok.inj hpermitted))
  obtain ⟨x, hread, hl⟩ := read_of_load hload
  have hx := lookup_of_readRecord hread
  have ha := alike_of_readRecord hread
  have hnews := news_of_readRecord hread
  have htries := readRecord_untried key s
  rw [hread] at htries
  cases hc : b.change s.now r with
  | error f =>
      rw [advance_of_error (by rw [ha.now, hc])] at hadvance
      cases hadvance
  | ok change =>
      cases change with
      | none =>
          rw [advance_of_none (by rw [ha.now, hc])] at hadvance
          cases hadvance
          refine ⟨x, none, hx, .still (fun r' hr' => ?_) ha.store hnews htries⟩
          subst hr'
          cases hl
          exact ⟨hc, hadmits⟩
      | some d =>
          obtain ⟨target, entered⟩ := d
          have hwritten : b.firstWrite? key s = some ((writeRecord key entered).play s₁).1 := by
            simp only [firstWrite?, hread, hl, hc]
          obtain ⟨s₃, ⟨y, -, -, hw, ha₃⟩ | ⟨f, hw, -⟩⟩ := writeRecord_cases key entered s₁
          · have hsave : (b.save key entered).play s₁ = (.ok entered.next, s₃) :=
              play_tryCatch_ok s₁ (play_tryCatch_ok s₁ hw _) _
            rw [advance_of_some (by rw [ha.now, hc]), if_pos rfl, play_bind_ok s₁ hsave] at hadvance
            have hwrote := tries_writeRecord key entered s₁
            have hwnews := news_of_writeRecord hw
            rw [hw] at hwrote
            obtain ⟨rfl, hstore, hnews₂, htries₂⟩ := of_announced hadvance
            have hmoved := replaces_of_change hc
            refine ⟨x, some entered.next, hx, .moved (found_of_change hl hc) (change_eq_some hc).1
              (hmoved.status ▸ hadmits) hmoved ?_ ?_ ?_⟩
            · rw [hstore, ha₃.store, Scene.keeping_store, ha.store]
            · rw [hnews₂, hwnews, hnews]
            · rw [htries₂, hwrote, htries, version_change hc]
          · rw [hwritten, hw] at hfirst
            exact absurd rfl (hfirst f)

theorem Prepared.later {x entry : Option Record} {s₁ : Scene} (h : b.Prepared key s x entry s₁)
    (hstore : s'.store = s₁.store) (hnews : s'.news = s₁.news) (htries : s'.tries = s₁.tries) :
    b.Prepared key s x entry s' := by
  cases h with
  | still hfound hstore₁ hnews₁ htries₁ =>
      exact .still hfound (hstore.trans hstore₁) (hnews.trans hnews₁) (htries.trans htries₁)
  | moved hx hdue ht hreplaces hstore₁ hnews₁ htries₁ =>
      exact .moved hx hdue ht hreplaces (hstore.trans hstore₁) (hnews.trans hnews₁)
        (htries.trans htries₁)

theorem prepared_of_running {w : Work} (hfirst : ∀ f, b.firstWrite? key s ≠ some (.error f))
    (h : (b.enterCall key w).play s = (.ok (.running o), s')) :
    (∃ x entry, s.store.lookup key = .ok x ∧ b.Prepared key s x entry s') ∧ Untold s s' := by
  obtain ⟨s₁, hbegin, hstart⟩ := begin_of_running h
  obtain ⟨x, entry, hx, hprepared⟩ := begin_prepares hfirst hbegin
  obtain ⟨out, s₂, hstarted, hstarts⟩ := start_started w key s₁
  have hnews := w.start_sameNews key s₁
  rw [hstart] at hstarted hnews
  cases hstarted
  exact ⟨⟨x, entry, hx, hprepared.later hstarts.store hnews hstarts.tries⟩, untold_of_running h⟩

end Breaker

namespace Scene

variable {key : String} {s s' s'' : Scene} {p p' : Option (Status × Status)}

structure Untouched (key : String) (s s' : Scene) : Prop where
  lookup : s'.store.lookup key = s.store.lookup key
  history : s'.store.history key = s.store.history key
  news : s'.newsOf key = s.newsOf key
  starts : s'.starts.count key = s.starts.count key

theorem Untouched.refl (key : String) (s : Scene) : s.Untouched key s := ⟨rfl, rfl, rfl, rfl⟩

/-- What becomes of the circuit of a key whose calls all come to nothing: nothing, where an open one has
started no function; or one transition, of which one entry is stored, and which is announced once. -/
inductive Passage (key : String) (s s' : Scene) : Option (Status × Status) → Prop
  | none : s'.store.lookup key = s.store.lookup key →
      s'.store.history key = s.store.history key → s'.newsOf key = s.newsOf key →
      (∀ r, s.store.lookup key = .ok (some r) → r.status = .open →
        s'.starts.count key = s.starts.count key) → Passage key s s' none
  | one {b : Breaker} {r e : Record} {target : Status} {t : Instant} :
      s.store.lookup key = .ok (some r) → b.config.check = .ok () →
      Record.due b.config r.status t r = .ok (some target) → target.rejects = false →
      r.Replaces target e → s'.store.lookup key = .ok (some e) →
      s'.store.history key = some e :: s.store.history key →
      s'.newsOf key = b.tidings key r.status target ++ s.newsOf key →
      Passage key s s' (some (r.status, target))

theorem Untouched.passage (h : s.Untouched key s') : s.Passage key s' none :=
  .none h.lookup h.history h.news fun _ _ _ => h.starts

/-- Where one transition was made, none is due for a second one. -/
theorem Passage.trans (h : s.Passage key s' p) (h' : s'.Passage key s'' p') :
    s.Passage key s'' (p'.or p) := by
  cases h with
  | none hlookup hhistory hnews hopen =>
      cases h' with
      | none hlookup' hhistory' hnews' hopen' =>
          refine .none (hlookup'.trans hlookup) (hhistory'.trans hhistory) (hnews'.trans hnews) ?_
          exact fun r hr hs => (hopen' r (hlookup.trans hr) hs).trans (hopen r hr hs)
      | one hr hcheck hdue ht hreplaces hlookup' hhistory' hnews' =>
          exact .one (hlookup ▸ hr) hcheck hdue ht hreplaces hlookup' (hhistory ▸ hhistory')
            (hnews ▸ hnews')
  | one hr hcheck hdue ht hreplaces hlookup hhistory hnews =>
      cases h' with
      | none hlookup' hhistory' hnews' hopen' =>
          exact .one hr hcheck hdue ht hreplaces (hlookup'.trans hlookup)
            (hhistory'.trans hhistory) (hnews'.trans hnews)
      | one hr' hcheck' hdue' ht' hreplaces' hlookup' hhistory' hnews' =>
          rw [hlookup] at hr'
          cases hr'
          have hthreshold := (Limits.check_eq_ok_iff.1 hcheck').successThreshold
          exact absurd hdue' ((hreplaces.fresh ht).due fun _ => hthreshold)

theorem Passage.half_open {r : Record} (h : s.Passage key s' p)
    (hr : s.store.lookup key = .ok (some r)) (hs : r.status = .open)
    (hstarted : s'.starts.count key ≠ s.starts.count key) : p = some (.open, .halfOpen) := by
  cases h with
  | none _ _ _ hopen => exact absurd (hopen r hr hs) hstarted
  | one hr' _ hdue =>
      rw [hr] at hr'
      cases hr'
      have howes := Record.owes_of_due hdue
      rw [hs] at howes ⊢
      cases howes
      rfl

/-- A call whose function starts makes one transition at most. -/
theorem passage_of_prepared {b : Breaker} {x entry : Option Record}
    (hx : s.store.lookup key = .ok x) (hcheck : b.config.check = .ok ())
    (h : b.Prepared key s x entry s') : ∃ p, s.Passage key s' p := by
  cases h with
  | still hfound hstore hnews _ =>
      refine ⟨_, .none (hstore ▸ rfl) (hstore ▸ rfl) (by rw [newsOf, hnews]; rfl) fun r hr hs => ?_⟩
      rw [hx] at hr
      have hadmits := (hfound r (Except.ok.inj hr)).2
      rw [hs] at hadmits
      cases hadmits
  | @moved r e target _ hr hdue ht hreplaces hstore hnews _ =>
      refine ⟨_, .one (hr ▸ hx) hcheck hdue ht hreplaces ?_ ?_ ?_⟩
      · rw [hstore, Store.lookup_kept]
      · rw [hstore, Store.history_kept]
      · exact newsOf_of_news (fun e he => Breaker.newsKey?_of_mem_tidings he) hnews

end Scene

end KeyedBreaker
