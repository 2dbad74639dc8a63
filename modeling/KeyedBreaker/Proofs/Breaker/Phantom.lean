import KeyedBreaker.Proofs.Breaker.Announced
import KeyedBreaker.Proofs.Breaker.Outcome

namespace KeyedBreaker

/-- The latest transition of the key, as its record has it, is this one. -/
def Scene.Holds (key : String) (s : Scene) (p : Status × Status) : Prop :=
  ∃ r, s.store.lookup key = .ok (some r) ∧ r.mark = (some p.1, p.2)

open Act Breaker

namespace Breaker

variable {b : Breaker} {s s' : Scene} {key : String} {x : Option Record} {r e : Record}
  {target : Status} {f : Failure}

theorem mark_of_change {t : Instant} (h : b.change t r = .ok (some (target, e))) :
    e.mark = (some r.status, target) := by
  obtain ⟨entered, hent, rfl⟩ := enter_eq_ok (change_eq_some h).2
  exact Prod.ext rfl hent.status

def firstWrite? (b : Breaker) (key : String) (s : Scene) : Option (Except Failure Record) :=
  match (readRecord key).play s with
  | (.ok x, s₁) =>
    match b.loaded s.now (.ok x) with
    | .ok r =>
      match b.change s.now r with
      | .ok (some (_, e)) => some ((writeRecord key e).play s₁).1
      | _ => none
    | .error _ => none
  | (.error _, _) => none

def isLost : Option (Except Failure Record) → Bool
  | some (.error f) => !f.isConflict
  | _ => false

def isDropped : Option (Except Failure Record) → Bool
  | some (.error f) => f.isConflict
  | _ => false

def lastWrite? (b : Breaker) (key : String) (o : Opening) (result : Except Failure Json) (s : Scene) :
    Option (Except Failure Record) :=
  match result with
  | .ok _ => written
  | .error f => if f.isOrdinary then written else none
where
  written :=
    match (b.advance key o.record false).play s with
    | (.ok e, s₁) => some ((writeRecord key e).play s₁).1
    | (.error _, _) => none

/-- The failures with which a call ends that cannot save its record. -/
def IsUnsaved (key : String) (f : Failure) : Prop :=
  f.isA .store = true ∨ ∃ called written, f = bothFailed key called written

theorem news_of_readRecord {out : Except Failure (Option Record)}
    (h : (readRecord key).play s = (out, s')) : s'.news = s.news := by
  have hn := keeps_readRecord sameNews_steady.toAccessSteady key s
  rwa [h] at hn

theorem news_of_writeRecord {out : Except Failure Record}
    (h : (writeRecord key r).play s = (out, s')) : s'.news = s.news := by
  have hn := keeps_writeRecord sameNews_steady.toAccessSteady key r s
  rwa [h] at hn

theorem of_announce_then {α : Type} {old new : Status} {v w : α}
    (h : (do b.announce key old new; pure v : Act α).play s = (.ok w, s')) :
    w = v ∧ s'.store = s.store ∧ s'.news = b.tidings key old new ++ s.news := by
  obtain ⟨told, es, hu, -, -⟩ := b.announce_utters key old new
  cases told with
  | error f =>
      rw [play_bind_error s (hu s)] at h
      cases h
  | ok u =>
      have hnews := announce_news_of_ok (hu s)
      rw [play_bind_ok s (hu s)] at h
      cases h
      exact ⟨rfl, rfl, hnews⟩

theorem of_advance_unsaved (h : (b.advance key r false).play s = (.ok e, s')) :
    s'.store = s.store ∧ s'.news = b.report key (b.owed s.now r) ++ s.news := by
  cases hc : b.change s.now r with
  | error f =>
      rw [advance_of_error hc] at h
      cases h
  | ok change =>
      cases change with
      | none =>
          rw [advance_of_none hc] at h
          cases h
          rw [owed_of_unchanged hc]
          exact ⟨rfl, rfl⟩
      | some d =>
          obtain ⟨target, entered⟩ := d
          rw [advance_of_some hc] at h
          obtain ⟨-, hstore, hnews⟩ := of_announce_then h
          rw [owed_of_change hc]
          exact ⟨hstore, hnews⟩

theorem begin_of_read (hread : (readRecord key).play s = (.ok x, s'))
    (hl : b.loaded s.now (.ok x) = .ok r) :
    (b.begin key).play s = (do
      let r ← b.advance key r true
      let started ← monotonic
      let (record, permitted) := Record.permit b.config r.status key (← now) r
      pure ({ record, status := r.status, started }, permitted) :
        Act (Opening × Except Failure Unit)).play s' := by
  have hload := b.play_load_of_read hread
  rw [hl] at hload
  rw [begin, play_bind_ok s hload]

theorem begin_of_lost (hm : s.Mild) (h : isLost (b.firstWrite? key s) = true) :
    ∃ f s', (b.begin key).play s = (.error f, s') ∧ f.isA .store = true ∧ s'.store = s.store ∧
      s'.news = s.news := by
  unfold firstWrite? at h
  split at h
  · rename_i x s₁ hread
    have ha := alike_of_readRecord hread
    split at h
    · rename_i r hl
      split at h
      · rename_i target e hc
        rcases hw : (writeRecord key e).play s₁ with ⟨f | stored, s₂⟩ <;> rw [hw] at h
        · have hm₁ := (readRecord_mildly key s hm).1
          rw [hread] at hm₁
          have hf := (writeRecord_mildly key e s₁ hm₁).2.1 f (by rw [hw])
          have hsave := b.play_save_failed hw hf (Bool.not_eq_true' _ ▸ h)
          refine ⟨asStore key "set" f, s₂, ?_, isA_asStore key "set" f, ?_, ?_⟩
          · have hadvance : (b.advance key r true).play s₁ = (.error (asStore key "set" f), s₂) := by
              rw [advance_of_some (by rw [ha.now, hc]), if_pos rfl, play_bind_error s₁ hsave]
            rw [begin_of_read hread hl, play_bind_error s₁ hadvance]
          · exact (alike_of_writeRecord hw).store.trans ha.store
          · exact (news_of_writeRecord hw).trans (news_of_readRecord hread)
        · cases h
      · cases h
    · cases h
  · cases h

theorem read_of_load (h : (b.load key).play s = (.ok r, s')) :
    ∃ x, (readRecord key).play s = (.ok x, s') ∧ b.loaded s.now (.ok x) = .ok r := by
  rcases hread : (readRecord key).play s with ⟨f | x, s₁⟩
  · have herror : ∃ g, (b.load key).play s = (.error g, s₁) :=
      ⟨_, play_bind_error s (play_tryCatch_error s hread _) _⟩
    obtain ⟨g, hg⟩ := herror
    rw [hg] at h
    cases h
  · rw [b.play_load_of_read hread] at h
    obtain ⟨hl, rfl⟩ := Prod.mk.inj h
    exact ⟨x, rfl, hl⟩

theorem of_save (hm : s.Mild) (h : (b.save key r).play s = (.ok e, s')) :
    s'.store.lookup key = .ok (some r.next) ∨
      isDropped (some ((writeRecord key r).play s).1) = true := by
  obtain ⟨s₁, ⟨y, -, -, hp, ha⟩ | ⟨f, hp, -⟩⟩ := writeRecord_cases key r s
  · have hsave : (b.save key r).play s = (.ok r.next, s₁) :=
      play_tryCatch_ok s (play_tryCatch_ok s hp _) _
    rw [hsave] at h
    cases h
    rw [ha.store, Scene.keeping_store, Store.lookup_kept]
    exact .inl rfl
  · refine .inr ?_
    rw [hp, isDropped]
    by_contra hc
    have hf := (writeRecord_mildly key r s hm).2.1 f (by rw [hp])
    rw [b.play_save_failed hp hf (Bool.eq_false_iff.2 hc)] at h
    cases h

/-- A call that begins has announced no transition but one that is stored now, or that gave way to a
conflicting write. -/
theorem begin_announces {o : Opening} {permitted : Except Failure Unit} (hm : s.Mild)
    (h : (b.begin key).play s = (.ok (o, permitted), s')) :
    ∃ first, s'.news = b.report key first ++ s.news ∧
      ∀ p ∈ first, s'.Holds key p ∨ isDropped (b.firstWrite? key s) = true := by
  obtain ⟨r, s₁, hload, h⟩ := exists_of_play_bind s h
  obtain ⟨e, s₂, hadvance, h⟩ := exists_of_play_bind s₁ h
  obtain rfl : s₂ = s' := congrArg Prod.snd h
  obtain ⟨x, hread, hl⟩ := read_of_load hload
  have ha := alike_of_readRecord hread
  have hn := news_of_readRecord hread
  cases hc : b.change s.now r with
  | error f =>
      rw [advance_of_error (by rw [ha.now, hc])] at hadvance
      cases hadvance
  | ok change =>
      cases change with
      | none =>
          rw [advance_of_none (by rw [ha.now, hc])] at hadvance
          cases hadvance
          exact ⟨none, hn, fun p hp => by cases hp⟩
      | some d =>
          obtain ⟨target, entered⟩ := d
          have hfirst : b.firstWrite? key s = some ((writeRecord key entered).play s₁).1 := by
            simp only [firstWrite?, hread, hl, hc]
          have hm₁ := (readRecord_mildly key s hm).1
          rw [hread] at hm₁
          rw [advance_of_some (by rw [ha.now, hc]), if_pos rfl] at hadvance
          obtain ⟨saved, s₃, hsave, hannounce⟩ := exists_of_play_bind s₁ hadvance
          obtain ⟨-, hstore, hnews⟩ := of_announce_then hannounce
          have hkept := b.keeps_save key sameNews_steady entered s₁
          rw [hsave] at hkept
          refine ⟨some (r.status, target), ?_, fun p hp => ?_⟩
          · rw [hnews, hkept, hn]
            rfl
          · cases hp
            rw [hfirst]
            have hmark : entered.mark = (some r.status, target) := mark_of_change hc
            exact (of_save hm₁ hsave).imp_left fun hx => ⟨entered.next, hstore ▸ hx, hmark⟩

theorem finish_tail_of_lost {o : Opening} (hm : s.Mild) (called : Option Failure)
    (occurrence : Occurrence) (answer : Act Json)
    (hlost : isLost (lastWrite?.written b key o s) = true) :
    ∃ f s', (do
        let r ← b.advance key o.record false
        b.persist key r called
        b.tell occurrence
        answer : Act Json).play s = (.error f, s') ∧ IsUnsaved key f ∧
      s'.store = s.store ∧ s'.news = b.report key (b.owed s.now o.record) ++ s.news := by
  unfold lastWrite?.written at hlost
  split at hlost
  · rename_i e s₁ hadvance
    obtain ⟨hstore, hnews⟩ := of_advance_unsaved hadvance
    have hm₁ := keeps_advance b key staysMild_steady o.record false s hm
    rw [hadvance] at hm₁
    rcases hw : (writeRecord key e).play s₁ with ⟨f | stored, s₂⟩ <;> rw [hw] at hlost
    · have hf := (writeRecord_mildly key e s₁ hm₁).2.1 f (by rw [hw])
      have hsave := b.play_save_failed hw hf (Bool.not_eq_true' _ ▸ hlost)
      have hpersist : (b.persist key _ called).play s₁ = (persisted key called _, s₂) :=
        persist_of_saved hsave fun g hg => by
          cases hg
          exact isA_asStore key "set" f
      let lost := asStore key "set" f
      refine ⟨called.elim lost (bothFailed key · lost), s₂, ?_, ?_,
        (alike_of_writeRecord hw).store.trans hstore, (news_of_writeRecord hw).trans hnews⟩
      · rw [play_bind_ok s hadvance, play_bind_error s₁ hpersist]
      · cases called with
        | none => exact .inl (isA_asStore key "set" f)
        | some g => exact .inr ⟨g, _, rfl⟩
    · cases hlost
  · cases hlost

/-- A call whose last write fails has announced the transition that it owes at its end, and stored
nothing more. -/
theorem finish_of_lost {o : Opening} {result : Except Failure Json} (hm : s.Mild)
    (h : isLost (b.lastWrite? key o result s) = true) :
    ∃ f s', (b.finish key o result).play s = (.error f, s') ∧ IsUnsaved key f ∧
      s'.store = s.store ∧ s'.news = b.report key (b.owed s.now o.record) ++ s.news := by
  cases result with
  | ok v =>
      rw [finish, play_bind_ok s (play_elapsed o s)]
      exact finish_tail_of_lost hm none _ (pure v) h
  | error f =>
      rw [lastWrite?] at h
      cases hf : f.isOrdinary with
      | false =>
          rw [hf] at h
          cases h
      | true =>
          rw [hf] at h
          rw [finish]
          simp only [hf, if_true]
          rw [play_bind_ok s (play_elapsed o s)]
          exact finish_tail_of_lost hm (some f) _ (throw f) h

end Breaker

namespace Visit

variable (key : String) (v : Visit) (s : Scene)

/-- What the end of the call starts from, if it gets there: what is left of its beginning, its result
once that is settled, and the scene. -/
def closing : Option (Opening × Except Failure Json × Scene) :=
  match (v.breaker.begin key).play (v.before s) with
  | (.error _, _) => none
  | (.ok (o, .error f), s') => some (o, .error f, s')
  | (.ok (o, .ok ()), _) =>
    let (record, result) := Record.settle v.breaker.config o.status o.record v.result
    some ({ o with record }, result, v.ending key s)

def owedLast : Option (Status × Status) :=
  (v.closing key s).bind fun (o, _, s') => v.breaker.owed s'.now o.record

def firstWrite? : Option (Except Failure Record) := v.breaker.firstWrite? key (v.before s)

def lastWrite? : Option (Except Failure Record) :=
  (v.closing key s).bind fun (o, result, s') => v.breaker.lastWrite? key o result s'

variable {key v s}

theorem run_of_closing {o : Opening} {result : Except Failure Json} {s' : Scene}
    (h : v.closing key s = some (o, result, s')) :
    v.run key s = (v.breaker.finish key o result).play s' := by
  rcases hbegin : (v.breaker.begin key).play (v.before s) with ⟨f | ⟨o₁, f | ⟨⟩⟩, s₁⟩ <;>
    simp only [closing, hbegin] at h
  · cases h
  · cases h
    have hentry : v.entry key s = (Stage.ended <$> v.breaker.finish key o (.error f)).play s' :=
      play_enterCall {} hbegin
    rw [run, hentry, play_map]
    rcases (v.breaker.finish key o (.error f)).play s' with ⟨g | y, s₂⟩ <;> rfl
  · cases h
    have hentry : v.entry key s = (.ok (.running o₁), s₁.seeing [.started key]) :=
      play_enterCall {} hbegin
    rw [run, hentry]
    rfl

theorem begun_of_closing {o : Opening} {result : Except Failure Json} {s' : Scene}
    (h : v.closing key s = some (o, result, s')) :
    ∃ o₁ permitted s₁, (v.breaker.begin key).play (v.before s) = (.ok (o₁, permitted), s₁) ∧
      (s' = s₁ ∨ (v.entry key s).2 = s₁.seeing [.started key] ∧ s' = v.ending key s) := by
  rcases hbegin : (v.breaker.begin key).play (v.before s) with ⟨f | ⟨o₁, f | ⟨⟩⟩, s₁⟩ <;>
    simp only [closing, hbegin] at h
  · cases h
  · cases h
    exact ⟨_, _, _, rfl, .inl rfl⟩
  · cases h
    refine ⟨_, _, _, rfl, .inr ⟨?_, rfl⟩⟩
    rw [entry, play_enterCall {} hbegin]
    rfl

/-- The function of the call leaves the key alone, whatever else it does. -/
structure Undistracted (key : String) (v : Visit) (s : Scene) : Prop where
  mild : (v.entry key s).2.Mild → (v.ending key s).Mild
  news : SameNews (v.entry key s).2 (v.ending key s)
  lookup : (v.ending key s).store.lookup key = (v.entry key s).2.store.lookup key

theorem undistracted_of_still (h : v.during = id) : v.Undistracted key s := by
  have hend : v.ending key s = (v.entry key s).2 := by rw [ending, h, id]
  constructor <;> rw [hend]
  · exact id
  · exact sameNews_steady.refl _

/-- A call that fails because one of its writes fails, other than by a conflict, has announced no
transition that the store does not hold, but for the one that it owes at its end, and but for one that
gave way to a conflicting write before its function. What it owes at its end it announces in any case,
while the store stays as it was. -/
theorem announced_of_lost_write (hm : (v.before s).Mild) (hduring : v.Undistracted key s)
    (hlost : isLost (v.firstWrite? key s) = true ∨ isLost (v.lastWrite? key s) = true) :
    (∃ f, (v.run key s).1 = .error f ∧ IsUnsaved key f) ∧
      (v.run key s).2.store = (((v.closing key s).map (·.2.2)).getD (v.before s)).store ∧
      ∃ first, (v.run key s).2.news = v.breaker.report key (v.owedLast key s) ++
          (v.breaker.report key first ++ (v.before s).news) ∧
        ∀ p ∈ first, (v.run key s).2.Holds key p ∨ isDropped (v.firstWrite? key s) = true := by
  rcases hlost with hlost | hlost
  · obtain ⟨f, s', hbegin, hf, hstore, hnews⟩ := begin_of_lost hm hlost
    have hclosing : v.closing key s = none := by simp only [closing, hbegin]
    have hentry : v.entry key s = (.error f, s') := play_enterCall {} hbegin
    have hrun : v.run key s = (.error f, s') := by rw [run, hentry]
    rw [hrun, owedLast, hclosing]
    exact ⟨⟨f, rfl, .inl hf⟩, hstore, none, hnews, fun p hp => by cases hp⟩
  · cases hclosing : v.closing key s with
    | none =>
        rw [lastWrite?, hclosing] at hlost
        cases hlost
    | some p =>
        obtain ⟨o, result, s'⟩ := p
        rw [lastWrite?, hclosing] at hlost
        obtain ⟨o₁, permitted, s₁, hbegin, hend⟩ := begun_of_closing hclosing
        obtain ⟨first, hfirst, hheld⟩ := begin_announces hm hbegin
        have hm₁ := keeps_begin v.breaker key staysMild_steady (v.before s) hm
        rw [hbegin] at hm₁
        obtain ⟨hm', hn', hx'⟩ : s'.Mild ∧ s'.news = s₁.news ∧
            s'.store.lookup key = s₁.store.lookup key := by
          rcases hend with rfl | ⟨hentry, rfl⟩
          · exact ⟨hm₁, rfl, rfl⟩
          · have hnews := hduring.news
            have hlookup := hduring.lookup
            rw [hentry] at hlookup
            rw [SameNews, hentry, s₁.news_seeing_of_not_news rfl] at hnews
            exact ⟨hduring.mild (hentry ▸ hm₁), hnews, hlookup⟩
        obtain ⟨f, s₂, hfinish, hf, hstore, hnews⟩ := finish_of_lost hm' hlost
        rw [run_of_closing hclosing, hfinish, owedLast, hclosing]
        refine ⟨⟨f, rfl, hf⟩, hstore, first, ?_, fun p hp => ?_⟩
        · rw [hnews, hn', hfirst]
          rfl
        · obtain ⟨r, hr, hmark⟩ | hdropped := hheld p hp
          · exact .inl ⟨r, by rw [hstore, hx', hr], hmark⟩
          · exact .inr hdropped

def tippingVisit : Visit where
  breaker := { config := { failureThreshold := 1 }, listeners := [.recording none []] }
  result := .error (.plain .value (some "bad"))

def fullScene : Scene where
  now := Schedule.beginning
  store := .memory []
  faults := fun
    | .write => List.replicate 2 (.raise (.plain .system (some "full")))
    | _ => []

theorem announced_of_lost_write_tipping :
    isLost (tippingVisit.lastWrite? "k" fullScene) = true ∧
      tippingVisit.owedLast "k" fullScene = some (.closed, .open) ∧
      ∃ first, (tippingVisit.run "k" fullScene).2.news =
        tippingVisit.breaker.report "k" (some (.closed, .open)) ++
          (tippingVisit.breaker.report "k" first ++ fullScene.news) := by
  have hmild : fullScene.Mild := by
    intro access f hf
    cases access with
    | write =>
        cases List.eq_of_mem_replicate hf
        rfl
    | _ => cases hf
  have hlost : isLost (tippingVisit.lastWrite? "k" fullScene) = true := by decide +kernel
  have howed : tippingVisit.owedLast "k" fullScene = some (.closed, .open) := by decide +kernel
  obtain ⟨-, -, first, hnews, -⟩ :=
    announced_of_lost_write hmild (undistracted_of_still rfl) (.inr hlost)
  exact ⟨hlost, howed, first, howed ▸ hnews⟩

/-- A call that cannot save that the circuit opens announces it, to the log and to listeners, and the
next such call does so again, while the circuit stays closed. -/
theorem tipping_announced_twice :
    let s := (tippingVisit.run "k" fullScene).2
    let s' := (tippingVisit.run "k" s).2
    ((tippingVisit.run "k" fullScene).1 matches .error (.group ..)) = true ∧
      ((tippingVisit.run "k" s).1 matches .error (.group ..)) = true ∧
      s'.logged "k" = [(.closed, .open), (.closed, .open)] ∧ s'.news.length = 4 ∧
      (s'.store.lookup "k").toOption = some none := by
  decide +kernel

end Visit

end KeyedBreaker
