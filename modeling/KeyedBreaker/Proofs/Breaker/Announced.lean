import KeyedBreaker.Proofs.Breaker.Call
import KeyedBreaker.Proofs.Breaker.Control
import KeyedBreaker.Proofs.Breaker.News

namespace KeyedBreaker

namespace Record

/-- The status before the latest transition, and the status after it. -/
def mark (r : Record) : Option Status × Status := (r.previousStatus, r.status)

/-- The mark of the record of a key; a key without one was never anything but closed. -/
def markOf (x : Option Record) : Option Status × Status := (x.map mark).getD (none, .closed)

variable {α : Type} {c : Config} {status : Status} {t : Instant} {r : Record} {key : String}

theorem mark_permit : (permit c status key t r).1.mark = r.mark :=
  permit_elim (P := fun e => e.mark = r.mark) rfl (fun _ => rfl) fun _ _ _ => rfl

theorem mark_settle (result : Except Failure α) : (settle c status r result).1.mark = r.mark := by
  obtain ⟨failures, calls, successes, h⟩ := settle_counters result
  rw [h]
  rfl

end Record

inductive Path : Option Status × Status → List (Status × Status) → Option Status × Status → Prop
  | refl {m} : Path m [] m
  | step {m ts previous old new} : Path m ts (previous, old) → old ≠ new →
      Path m ((old, new) :: ts) (some old, new)

theorem Path.trans {m m' m'' : Option Status × Status} {ts ts' : List (Status × Status)}
    (h : Path m ts m') (h' : Path m' ts' m'') : Path m (ts' ++ ts) m'' := by
  induction h' with
  | refl => exact h
  | step _ hne ih => exact .step ih hne

open Act

namespace Breaker

def tidingsOf (b : Breaker) (key : String) (ts : List (Status × Status)) : List Event :=
  ts.flatMap fun p => b.tidings key p.1 p.2

/-- The breaker stores records under the key and makes transitions known, and one tells of the other. -/
structure Speaks (b : Breaker) (key : String) (x : Option Record) (s : Scene)
    (ts : List (Status × Status)) (rs : List Record) (s' : Scene) : Prop where
  gains : s.Gains key rs s'
  news : s'.news = b.tidingsOf key ts ++ s.news
  path : Path (Record.markOf x) ts (Record.markOf (rs.head?.or x))

variable {b : Breaker} {key : String} {x : Option Record} {s s' s'' : Scene} {r : Record}
  {ts ts' : List (Status × Status)} {rs rs' : List Record}

theorem Speaks.trans (h : b.Speaks key x s ts rs s') (h' : b.Speaks key (rs.head?.or x) s' ts' rs' s'') :
    b.Speaks key x s (ts' ++ ts) (rs' ++ rs) s'' where
  gains := h.gains.trans h'.gains
  news := by rw [h'.news, h.news, tidingsOf, tidingsOf, tidingsOf, List.flatMap_append,
    List.append_assoc]
  path := by
    have hp := h.path.trans h'.path
    cases rs' with
    | nil => exact hp
    | cons r rs' => exact hp

theorem speaks_of_silent (hg : s.Gains key [] s') (hn : s'.news = s.news) :
    b.Speaks key x s [] [] s' := ⟨hg, hn, .refl⟩

theorem markOf_loaded {t : Instant} (h : b.loaded t (.ok x) = .ok r) : r.mark = Record.markOf x := by
  obtain rfl | ⟨rfl, hent⟩ := loaded_cases h
  · rfl
  · exact Prod.ext hent.previousStatus hent.status

theorem Admitted.mark {t : Instant} (h : b.Admitted t x r rs) :
    r.mark = Record.markOf (rs.head?.or x) := by
  cases h with
  | loaded hr _ => exact markOf_loaded hr
  | changed => rfl

theorem EnteredCall.opened {o : Opening} (h : EnteredCall b key x s (.ok (.running o)) s') :
    ∃ rs, s.Gains key rs s' ∧ o.Current (rs.head?.or x) ∧
      o.record.mark = Record.markOf (rs.head?.or x) := by
  generalize hout : (.ok (.running o) : Except Failure Stage) = out at h
  cases h with
  | unbegun => cases hout
  | rejected | failed => exact absurd hout.symm ended_ne_running
  | running ha hl hp hstarted =>
      cases hout
      exact ⟨_, hl.gains.trans hstarted.idle_store, ha.current hp,
        Record.mark_permit.trans ha.mark⟩

theorem path_of_change {t : Instant} {target : Status} {e : Record}
    (h : b.change t r = .ok (some (target, e))) : Path r.mark [(r.status, target)] e.mark := by
  obtain ⟨hd, he⟩ := change_eq_some h
  obtain ⟨entered, hent, rfl⟩ := enter_eq_ok he
  have hmark : ({ entered with previousStatus := some r.status } : Record).mark =
      (some r.status, target) := Prod.ext rfl hent.status
  rw [hmark]
  exact .step .refl (Record.due_ne hd)

theorem path_of_forced {t : Instant} {target : Status} {e : Record}
    (h : b.forced target t r = .ok e) :
    Path r.mark (if r.status = target then [] else [(r.status, target)]) e.mark := by
  obtain ⟨entered, hent, rfl⟩ := forced_eq_ok h
  by_cases ht : r.status = target
  · have hmark : r.mark = ({ entered with
        previousStatus := if r.status = target then r.previousStatus else some r.status } :
          Record).mark := Prod.ext (if_pos ht).symm (ht.trans hent.status.symm)
    rw [if_pos ht, ← hmark]
    exact .refl
  · have hmark : ({ entered with
        previousStatus := if r.status = target then r.previousStatus else some r.status } :
          Record).mark = (some r.status, target) := Prod.ext (if_neg ht) hent.status
    rw [hmark, if_neg ht]
    exact .step .refl ht

theorem report_some (key : String) (p : Status × Status) :
    b.report key (some p) = b.tidingsOf key [p] := (List.append_nil _).symm

theorem finish_speaks {o : Opening} {result out : Except Failure Json} (hb : b.Polite)
    (hq : s.Quiet) (hx : s.store.lookup key = .ok x) (hv : o.record.version = Record.versionOf x)
    (hm : o.record.mark = Record.markOf x)
    (hr : ∀ f, result = .error f → f.isOrdinary = true)
    (h : (b.finish key o result).play s = (out, s')) : ∃ ts rs, b.Speaks key x s ts rs s' := by
  have hn := news_finish hb key o result hr s
  obtain ⟨out', s₁, hp, hfin⟩ := b.finish_finished hq hx o result hr
  rw [hp] at h hn
  cases h
  cases hfin with
  | unrenewed hf hl =>
      have howed : b.owed s.now o.record = none := by
        unfold renewed at hf
        cases hc : b.change s.now o.record with
        | error g => rw [owed, hc]
        | ok change => rw [hc] at hf; cases hf
      rw [howed] at hn
      exact ⟨[], [], speaks_of_silent hl.gains hn⟩
  | unannounced _ _ himpolite _ => exact absurd hb himpolite
  | @persisted e _ _ he hper _ =>
      have hl := hper.current ((version_renewed he).trans hv)
      rcases renewed_cases he with ⟨hc, rfl⟩ | ⟨target, hc⟩
      · rw [owed_of_unchanged hc] at hn
        exact ⟨[], _, hl.gains, hn, hm ▸ .refl⟩
      · rw [owed_of_change hc, report_some] at hn
        have hpath : Path (Record.markOf x) [(o.record.status, target)] e.mark :=
          hm ▸ path_of_change hc
        exact ⟨_, _, hl.gains, hn, hpath⟩

theorem conclude_speaks {o : Opening} {result out : Except Failure Json} (hb : b.Polite)
    (hq : s.Quiet) (hx : s.store.lookup key = .ok x) (hv : o.record.version = Record.versionOf x)
    (hm : o.record.mark = Record.markOf x) (h : (b.conclude key o result).play s = (out, s')) :
    ∃ ts rs, b.Speaks key x s ts rs s' := by
  rw [conclude_eq] at h
  by_cases hr : ∀ f, (Record.settle b.config o.status o.record result).2 = .error f →
      f.isOrdinary = true
  · exact finish_speaks hb hq hx ((Record.version_settle _).trans hv)
      ((Record.mark_settle _).trans hm) hr h
  · push Not at hr
    obtain ⟨f, hf, ho⟩ := hr
    rw [hf, b.finish_of_not_ordinary key _ (Bool.eq_false_iff.2 ho)] at h
    cases h
    exact ⟨[], [], speaks_of_silent ((Scene.Idle.refl s).gains key) rfl⟩

/-- A call that begins speaks of the transition that the record it reads owes, and goes on with a
record of the mark that is stored then. -/
theorem begin_speaks {out : Except Failure (Opening × Except Failure Unit)} (hb : b.Polite)
    (hq : s.Quiet) (hx : s.store.lookup key = .ok x) (h : (b.begin key).play s = (out, s')) :
    ∃ ts rs, b.Speaks key x s ts rs s' ∧ ∀ o permitted, out = .ok (o, permitted) →
      o.record.version = Record.versionOf (rs.head?.or x) ∧
      o.record.mark = Record.markOf (rs.head?.or x) ∧
      ∀ f, permitted = .error f → f.isOrdinary = true := by
  obtain ⟨out', s₁, hp, hbegun⟩ := b.begin_begun hq hx
  rw [hp] at h
  cases h
  have hnews : ∀ r, b.loaded s.now (.ok x) = .ok r →
      s'.news = b.report key (b.owed s.now r) ++ s.news := by
    intro r hr
    have hn := news_begin hb hq hx hr
    rwa [hp] at hn
  cases hbegun with
  | @unloaded f _ hr hl =>
      have hsilent : s'.news = s.news := by
        obtain ⟨s₂, hload, -⟩ := b.load_leads hq key
        have hn := b.keeps_load key sameNews_steady.toAccessSteady s
        rw [hx, hr] at hload
        rw [hload] at hn
        rw [begin, play_bind_error s hload] at hp
        cases hp
        exact hn
      exact ⟨[], [], speaks_of_silent hl.gains hsilent, fun o permitted ho => by cases ho⟩
  | @unchanged f r _ hr hc hl =>
      have hn := hnews r hr
      rw [owed, hc] at hn
      exact ⟨[], [], speaks_of_silent hl.gains hn, fun o permitted ho => by cases ho⟩
  | unannounced _ _ _ himpolite _ => exact absurd hb himpolite
  | @begun r rs _ ha hl =>
      have hopening : ∀ o permitted,
          (Except.ok (b.opening key s.now s.monotonic r,
            (Record.permit b.config r.status key s.now r).2) :
              Except Failure (Opening × Except Failure Unit)) = .ok (o, permitted) →
          o.record.version = Record.versionOf (rs.head?.or x) ∧
            o.record.mark = Record.markOf (rs.head?.or x) ∧
            ∀ f, permitted = .error f → f.isOrdinary = true := by
        intro o permitted ho
        obtain ⟨rfl, rfl⟩ := Prod.mk.inj (Except.ok.inj ho)
        exact ⟨Record.version_permit.trans ha.head.1, Record.mark_permit.trans ha.mark,
          fun f hf => Record.isOrdinary_of_permit hf⟩
      cases ha with
      | loaded hr hc =>
          have hn := hnews r hr
          rw [owed_of_unchanged hc] at hn
          exact ⟨[], [], speaks_of_silent hl.gains hn, hopening⟩
      | @changed r e target hr hc =>
          have hn := hnews r hr
          rw [owed_of_change hc, report_some] at hn
          have hpath : Path (Record.markOf x) [(r.status, target)] e.mark :=
            markOf_loaded hr ▸ path_of_change hc
          exact ⟨_, _, ⟨hl.gains, hn, hpath⟩, hopening⟩

theorem enterCall_speaks {w : Work} {out : Except Failure Stage} (hb : b.Polite) (hq : s.Quiet)
    (hx : s.store.lookup key = .ok x) (h : (b.enterCall key w).play s = (out, s')) :
    ∃ ts rs, b.Speaks key x s ts rs s' := by
  obtain ⟨begun, s₁, hp, -⟩ := b.begin_begun hq hx
  obtain ⟨ts, rs, hspeaks, hopening⟩ := begin_speaks hb hq hx hp
  have hq₁ := hspeaks.gains.quiet hq
  have hx₁ := hspeaks.gains.store.lookup hx
  rw [play_enterCall w hp] at h
  cases begun with
  | error f =>
      cases h
      exact ⟨ts, rs, hspeaks⟩
  | ok p =>
      obtain ⟨o, permitted⟩ := p
      obtain ⟨hv, hm, hordinary⟩ := hopening o permitted rfl
      cases permitted with
      | error f =>
          rcases hp₁ : (b.finish key o (.error f)).play s₁ with ⟨answer, s₂⟩
          rw [goOn, play_map, hp₁] at h
          obtain ⟨-, rfl⟩ := Prod.mk.inj h
          obtain ⟨ts', rs', h'⟩ := finish_speaks hb hq₁ hx₁ hv hm
            (fun g hg => by cases hg; exact hordinary f rfl) hp₁
          exact ⟨_, _, hspeaks.trans h'⟩
      | ok u =>
          obtain ⟨started, s₂, hst, hstarted⟩ := start_started w key s₁
          have hn : s₂.news = s₁.news := by
            have hn := w.start_sameNews key s₁
            rwa [hst] at hn
          have hsilent : b.Speaks key (rs.head?.or x) s₁ [] [] s₂ :=
            speaks_of_silent hstarted.idle_store hn
          have hspeaks₂ := hspeaks.trans hsilent
          rw [goOn, hst] at h
          cases started with
          | ok u =>
              cases h
              exact ⟨_, _, hspeaks₂⟩
          | error f =>
              rcases hp₂ : (b.conclude key o (.error f)).play s₂ with ⟨answer, s₃⟩
              dsimp only at h
              rw [play_map, hp₂] at h
              obtain ⟨-, rfl⟩ := Prod.mk.inj h
              have hx₂ := hspeaks₂.gains.store.lookup hx
              obtain ⟨ts', rs', h'⟩ := conclude_speaks hb (hspeaks₂.gains.quiet hq) hx₂ hv hm hp₂
              exact ⟨_, _, hspeaks₂.trans h'⟩

theorem force_speaks {target previous : Status} {stored : Record} (hb : b.Polite) (hq : s.Quiet)
    (h : (b.overwriteOnce key target).play s = (.ok (previous, stored), s')) :
    ∃ x ts rs, s.store.lookup key = .ok x ∧
      b.Speaks key x s ts rs ((b.confirm key target previous).play s').2 := by
  have hn := b.keeps_overwriteOnce key sameNews_steady.toAccessSteady target s
  rw [h] at hn
  cases overwritten_of_play hq h with
  | @stored x r e _ hx hr he hl =>
      obtain ⟨out, s'', hc, -, hl'⟩ := b.confirm_leads key target r.status s'
      have hnews := news_confirm hb key target r.status s'
      rw [hc] at hnews ⊢
      have hsame : s'.news = s.news := hn
      rw [hsame] at hnews
      have hpath := path_of_forced he
      rw [markOf_loaded hr] at hpath
      refine ⟨x, _, _, hx, hl.gains.trans hl'.gains, ?_, hpath⟩
      rw [hnews]
      split
      · rfl
      · exact congrArg (· ++ s.news) (report_some key (r.status, target))

end Breaker

end KeyedBreaker
