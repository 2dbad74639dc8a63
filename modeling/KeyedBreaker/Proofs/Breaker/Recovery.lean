import KeyedBreaker.Proofs.Breaker.Window

namespace KeyedBreaker

open Breaker

/-- A record of a half-open circuit after so many good probes. -/
structure Record.Probes (k : Nat) (r : Record) : Prop where
  status : r.status = .halfOpen
  successes : r.successCount = k
  total : r.totalCount = k
  failures : r.failureCount = 0

def Past.good (c : Config) (ps : List Past) : Nat := ps.countP fun p => p.verdict c = .good

namespace Record

variable {c : Config} {t : Instant} {r e : Record} {k : Nat}

theorem Probes.next (h : r.Probes k) : r.next.Probes k := ⟨h.status, h.successes, h.total, h.failures⟩

theorem Probes.due (h : r.Probes k) :
    Record.due c r.status t r = .ok (if c.successThreshold ≤ k then some .closed else none) := by
  rw [h.status, Record.due, h.failures, h.successes, if_neg (by decide)]
  split <;> rfl

theorem Probes.permit (h : r.Probes k) (key : String) :
    Record.permit c r.status key t r = (r, .ok ()) := by
  rw [h.status]
  rfl

theorem Probes.settle_good (h : r.Probes k) (ht : c.Total) {p : Past} (hp : p.verdict c = .good) :
    (Record.settle c r.status r p.result).1.Probes (k + 1) := by
  have hgood : (Record.countGood .halfOpen r).Probes (k + 1) := by
    refine ⟨h.status, ?_, ?_, h.failures⟩
    · change r.successCount + 1 = _
      rw [h.successes]
      rfl
    · change r.totalCount + 1 = _
      rw [h.total]
      rfl
  rw [Past.verdict] at hp
  rw [h.status]
  unfold Record.settle
  cases hr : p.result with
  | ok v => exact hgood
  | error f =>
      rw [hr] at hp
      dsimp only at hp ⊢
      by_cases ho : f.isOrdinary
      · rw [if_pos ho] at hp ⊢
        obtain ⟨counted, hc⟩ := ht f ho
        rw [hc] at hp ⊢
        cases counted with
        | true => cases hp
        | false => exact hgood
      · rw [if_neg ho] at hp
        cases hp

theorem Probes.settle_bad (h : r.Probes k) {p : Past} (hp : p.verdict c = .bad) :
    (Record.settle c r.status r p.result).1.status = .halfOpen ∧
      Record.due c (Record.settle c r.status r p.result).1.status t
        (Record.settle c r.status r p.result).1 = .ok (some .open) := by
  rw [Past.verdict] at hp
  rw [status_settle, h.status]
  refine ⟨rfl, ?_⟩
  unfold Record.settle
  cases hr : p.result with
  | ok v => rw [hr] at hp; cases hp
  | error f =>
      rw [hr] at hp
      dsimp only at hp ⊢
      by_cases ho : f.isOrdinary
      · rw [if_pos ho] at hp ⊢
        split at hp
        · rename_i hc
          rw [hc]
          have hpos : 0 < (r.countCall.countFailure).failureCount := by
            change 0 < r.failureCount + 1
            rw [h.failures]
            decide
          rw [Record.due, if_pos hpos]
        · cases hp
      · rw [if_neg ho] at hp
        cases hp

end Record

namespace Visit

variable {v : Visit} {key : String} {s : Scene} {c : Config} {t : Instant} {k : Nat}
  {change : Option (Status × Status)} {x : Option Record} {r : Record}

/-- A call that starts at this time is a probe after so many good ones. It comes with the transition
that precedes it, if there is one. -/
structure Probing (c : Config) (key : String) (s : Scene) (t : Instant) (k : Nat)
    (change : Option (Status × Status)) : Prop where
  quiet : s.Quiet
  few : (k : Int) < c.successThreshold
  loads : ∃ x r rs, s.store.lookup key = .ok x ∧ rs.head?.or x = some r ∧ r.Probes k ∧
    ∀ b : Breaker, b.config = c → b.Admitted t x r rs ∧ b.precedes t x = change

theorem probing_of_probes (hq : s.Quiet) (hk : (k : Int) < c.successThreshold)
    (hr : s.store.lookup key = .ok (some r)) (hp : r.Probes k) : Probing c key s t k none := by
  refine ⟨hq, hk, some r, r, [], hr, rfl, hp, fun b hb => ?_⟩
  subst hb
  have hdue : Record.due b.config r.status t r = .ok none := by rw [hp.due, if_neg (by omega)]
  refine ⟨.loaded rfl (change_of_due_none hdue), ?_⟩
  change b.owed t r = none
  rw [owed, change_of_due_none hdue]

theorem probing_of_open {u : Instant} (hc : 1 ≤ c.successThreshold) (hq : s.Quiet)
    (hr : s.store.lookup key = .ok (some r)) (hs : r.status = .open) (hu : r.closeAt = some u)
    (ht : t.reaches u = .ok true) : Probing c key s t 0 (some (.open, .halfOpen)) := by
  have hdue : Record.due c r.status t r = .ok (some .halfOpen) := by
    rw [hs, Record.due, hu]
    dsimp only
    rw [ht]
    rfl
  let e : Record := { r.clearCounters with status := .halfOpen, previousStatus := some r.status }
  refine ⟨hq, by omega, some r, e.next, [e.next], hr, rfl, ⟨rfl, rfl, rfl, rfl⟩, fun b hb => ?_⟩
  subst hb
  have hchange : b.change t r = .ok (some (.halfOpen, e)) := change_of_due_some hdue rfl
  refine ⟨.changed rfl hchange, ?_⟩
  change b.owed t r = _
  rw [owed, hchange, hs]

def Probed (c : Config) (key : String) (b : Breaker) (t : Instant) (k : Nat) (r : Record)
    (news : List Event) : Verdict → Prop
  | .void => r.Probes k ∧ news = []
  | .bad => r.Broken c t ∧ news = b.tidings key .halfOpen .open
  | .good =>
    if c.successThreshold ≤ (k + 1 : Nat) then
      Window.Shown c ⟨t, []⟩ r ∧ news = b.tidings key .halfOpen .closed
    else r.Probes (k + 1) ∧ news = []

theorem Probing.leaves (h : Probing c key s (v.before s).now k change) (hf : v.Fair key s c)
    (ht : c.Total) :
    (∃ r, (v.entry key s).2.store.lookup key = .ok (some r) ∧ r.Probes k) ∧
      ∃ r news, v.Leaves key s (some r) (news ++ v.breaker.report key change) ∧
        Probed c key v.breaker (v.past key s).finish k r news ((v.past key s).verdict c) := by
  obtain ⟨x, r, rs, hx, hhead, hp, hload⟩ := h.loads
  obtain ⟨ha, rfl⟩ := hload v.breaker hf.config
  have hpermit := fun t => hp.permit (c := v.breaker.config) (t := t) key
  have hruns : v.Runs key s x r rs := ⟨h.quiet, hx, ha, by rw [hpermit]⟩
  have hcounted : v.counted key s r =
      (Record.settle c r.status r (v.past key s).result).1 := by
    rw [counted, hpermit, hf.config]
    rfl
  have hj : c.Judges v.result := ht.judges _
  refine ⟨⟨r, ?_, hp⟩, ?_⟩
  · have hl := (hruns.underway hf).lookup
    rw [hhead] at hl
    rwa [← hf.during.lookup]
  cases hverdict : (v.past key s).verdict c with
  | void =>
      obtain ⟨f, hr, ho⟩ := Past.verdict_eq_void_iff.1 hverdict
      have hl := hruns.leaves_void hf hr ho
      rw [hhead] at hl
      exact ⟨r, [], hl, hp, rfl⟩
  | bad =>
      obtain ⟨hstatus, hdue⟩ := hp.settle_bad (t := (v.ending key s).now) hverdict
      rw [← hcounted] at hstatus hdue
      obtain ⟨e, previous, he, hl⟩ := hruns.leaves_due hf hj (hverdict ▸ by decide) hdue
      rw [hstatus] at hl
      exact ⟨_, _, hl, Record.broken_of_entered he, rfl⟩
  | good =>
      have hgood := hp.settle_good ht hverdict
      rw [← hcounted] at hgood
      have hdue := hgood.due (c := c) (t := (v.ending key s).now)
      by_cases henough : c.successThreshold ≤ (k + 1 : Nat)
      · rw [if_pos henough] at hdue
        obtain ⟨e, previous, he, hl⟩ := hruns.leaves_due hf hj (hverdict ▸ by decide) hdue
        rw [hgood.status] at hl
        refine ⟨_, _, hl, ?_⟩
        rw [Probed, if_pos henough]
        exact ⟨(Window.shown_of_entered he).next, rfl⟩
      · rw [if_neg henough] at hdue
        refine ⟨_, [], hruns.leaves_undue hf hj (hverdict ▸ by decide) hdue, ?_⟩
        rw [Probed, if_neg henough]
        exact ⟨hgood.next, rfl⟩

theorem run_quiet (hf : v.Fair key s c) (hq : s.Quiet) : (v.run key s).2.Quiet := by
  have hq₀ := hf.before.quiet hq
  rcases hentry : v.entry key s with ⟨out, s₁⟩
  have hduring := hf.during
  rw [hentry] at hduring
  cases hx : (v.before s).store.lookup key with
  | error f =>
      obtain ⟨rfl, hl⟩ := unread_of_play hq₀ hx hentry
      rw [run, hentry]
      exact hl.quiet hq₀
  | ok x =>
      obtain ⟨-, rs, hg, -⟩ := (entered_of_play hq₀ hx hentry).gains
      have hq₁ := hg.quiet hq₀
      rw [run, hentry]
      cases out with
      | error f => exact hq₁
      | ok stage =>
          cases stage with
          | ended y => exact hq₁
          | running o =>
              have hx₂ := hduring.lookup.trans (hg.store.lookup hx)
              have hq₂ := hduring.quiet hq₁
              have hc := concluded_of_play hq₂ hx₂
                (rfl : (v.breaker.conclude key o v.result).play (v.ending key s) = _)
              by_cases hv : o.record.version = Record.versionOf (rs.head?.or x)
              · obtain ⟨-, rs', hg', -⟩ := hc.gains hv
                exact hg'.quiet hq₂
              · obtain ⟨-, hfaults, -⟩ := hc.idle_of_stale hv
                exact fun a => (congrFun hfaults a).trans (hq₂ a)

variable {us vs : List Visit} {u : Instant}

theorem after_quiet (hfair : AllFair c key s vs) (hq : s.Quiet) : (after key s vs).Quiet := by
  induction vs generalizing s with
  | nil => exact hq
  | cons v vs ih => exact ih hfair.2 (run_quiet hfair.1 hq)

def preceding : List Visit → Option (Status × Status)
  | [] => some (.open, .halfOpen)
  | _ :: _ => none

def probingNews (key : String) : List Visit → List Event
  | [] => []
  | v :: _ => v.breaker.tidings key .open .halfOpen

theorem report_preceding : v.breaker.report key (preceding vs) ++ probingNews key vs =
    probingNews key (vs ++ [v]) := by
  cases vs with
  | nil => exact List.append_nil _
  | cons => rfl

theorem good_concat (c : Config) (ps : List Past) (p : Past) :
    Past.good c (ps ++ [p]) = Past.good c ps + if p.verdict c = .good then 1 else 0 := by
  rw [Past.good, List.countP_append, List.countP_singleton]
  simp only [decide_eq_true_eq]
  rfl

/-- As long as no probe fails and not enough of them are good, every call is a probe. -/
theorem probing_of_history (hc : 1 ≤ c.successThreshold) (ht : c.Total) (hq : s.Quiet)
    (hfair : AllFair c key s (vs ++ [v])) (hr : s.store.lookup key = .ok (some r))
    (hs : r.status = .open) (hu : r.closeAt = some u)
    (hdue : ∀ w ∈ (vs ++ [v]).head?, (w.before s).now.reaches u = .ok true)
    (hbad : ∀ p ∈ history key s vs, p.verdict c ≠ .bad)
    (hfew : (Past.good c (history key s vs) : Int) < c.successThreshold) :
    Probing c key (after key s vs) (v.before (after key s vs)).now
        (Past.good c (history key s vs)) (preceding vs) ∧
      (after key s vs).starts.count key = s.starts.count key + vs.length ∧
      (after key s vs).newsOf key = probingNews key vs ++ s.newsOf key := by
  induction vs using List.reverseRecOn generalizing v with
  | nil => exact ⟨probing_of_open hc hq hr hs hu (hdue v rfl), rfl, rfl⟩
  | append_singleton vs w ih =>
      obtain ⟨hfair', hf⟩ := allFair_concat.1 hfair
      obtain ⟨-, hfw⟩ := allFair_concat.1 hfair'
      have hfirst : (vs ++ [w] ++ [v]).head? = (vs ++ [w]).head? := by cases vs <;> rfl
      rw [hfirst] at hdue
      rw [history_concat] at hbad hfew ⊢
      rw [good_concat] at hfew ⊢
      obtain ⟨hprobing, hstarts, hnews⟩ := ih hfair' hdue
        (fun p hp => hbad p (List.mem_append_left _ hp)) (by omega)
      obtain ⟨-, r', news, hl, hverdict⟩ := hprobing.leaves hfw ht
      have hnone : preceding (vs ++ [w]) = none := by cases vs <;> rfl
      rw [after_concat, hnone, hl.starts, hl.news, hstarts, hnews, List.append_assoc,
        ← List.append_assoc (w.breaker.report key _), report_preceding]
      have hnotBad := hbad _ (List.mem_append_right _ List.mem_cons_self)
      cases hw : (w.past key (after key s vs)).verdict c with
      | bad => exact absurd hw hnotBad
      | void =>
          rw [hw] at hverdict hfew
          obtain ⟨hp, rfl⟩ := hverdict
          refine ⟨probing_of_probes hl.quiet (by simpa using hfew) hl.lookup (by simpa using hp),
            ?_, rfl⟩
          rw [List.length_append]
          rfl
      | good =>
          rw [hw] at hverdict hfew
          simp only [if_true] at hfew
          rw [Probed, if_neg (by omega)] at hverdict
          obtain ⟨hp, rfl⟩ := hverdict
          refine ⟨probing_of_probes hl.quiet (by simpa using hfew) hl.lookup (by simpa using hp),
            ?_, rfl⟩
          rw [List.length_append]
          rfl

/-- The law of recovery. Whenever in the course of the calls the circuit is open and its break has
ended, the functions of the next calls run in a half-open circuit that shows the good probes so far; a
call that is cancelled or aborted is none of them. Enough of them close the circuit, a bad one at any
position opens it, and until then there is no transition but the first. -/
theorem recovery_by_history (hc : c.check = .ok ()) (ht : c.Total) (hq : s.Quiet)
    (hfair : AllFair c key s (us ++ (vs ++ [v])))
    (hr : (after key s us).store.lookup key = .ok (some r)) (hs : r.status = .open)
    (hu : r.closeAt = some u)
    (hdue : ∀ w ∈ (vs ++ [v]).head?, (w.before (after key s us)).now.reaches u = .ok true)
    (hbad : ∀ p ∈ history key (after key s us) vs, p.verdict c ≠ .bad)
    (hfew : (Past.good c (history key (after key s us) vs) : Int) < c.successThreshold) :
    let s₁ := after key s us
    let ps := history key s₁ vs
    let p := v.past key (after key s₁ vs)
    let last := after key s₁ (vs ++ [v])
    (∃ e, (v.entry key (after key s₁ vs)).2.store.lookup key = .ok (some e) ∧
        e.Probes (Past.good c ps)) ∧
      last.starts.count key = s₁.starts.count key + (vs.length + 1) ∧
      ∃ e, last.store.lookup key = .ok (some e) ∧
        (p.verdict c ≠ .bad → (Past.good c (ps ++ [p]) : Int) < c.successThreshold →
          e.Probes (Past.good c (ps ++ [p])) ∧
            last.newsOf key = probingNews key (vs ++ [v]) ++ s₁.newsOf key) ∧
        (p.verdict c = .good → (Past.good c (ps ++ [p]) : Int) = c.successThreshold →
          Window.Shown c ⟨p.finish, []⟩ e ∧ last.newsOf key =
            v.breaker.tidings key .halfOpen .closed ++ probingNews key (vs ++ [v]) ++
              s₁.newsOf key) ∧
        (p.verdict c = .bad →
          e.Broken c p.finish ∧ last.newsOf key =
            v.breaker.tidings key .halfOpen .open ++ probingNews key (vs ++ [v]) ++
              s₁.newsOf key) := by
  intro s₁ ps p last
  obtain ⟨hfair₁, hfair₂⟩ := allFair_append.1 hfair
  obtain ⟨hprobing, hstarts, hnews⟩ := probing_of_history (Record.thresholds_of_check hc).1 ht
    (after_quiet hfair₁ hq) hfair₂ hr hs hu hdue hbad hfew
  obtain ⟨hentry, e, news, hl, hverdict⟩ := hprobing.leaves (allFair_concat.1 hfair₂).2 ht
  have hlast : last = (v.run key (after key s₁ vs)).2 := after_concat
  have hall : last.newsOf key = news ++ probingNews key (vs ++ [v]) ++ s₁.newsOf key := by
    rw [hlast, hl.news, hnews, ← report_preceding, List.append_assoc, List.append_assoc,
      List.append_assoc]
  refine ⟨hentry, ?_, e, hlast ▸ hl.lookup, fun hp hfew => ?_, fun hp henough => ?_, fun hp => ?_⟩
  · rw [hlast, hl.starts, hstarts]
    rfl
  · cases hw : p.verdict c with
    | bad => exact absurd hw hp
    | void =>
        rw [hw] at hverdict
        obtain ⟨he, rfl⟩ := hverdict
        rw [good_concat, hw]
        exact ⟨he, hall⟩
    | good =>
        rw [hw] at hverdict
        rw [good_concat, hw] at hfew ⊢
        have hnotYet : ¬ c.successThreshold ≤ ((Past.good c ps + 1 : Nat) : Int) := not_le.2 hfew
        obtain ⟨he, rfl⟩ := (if_neg hnotYet).mp hverdict
        exact ⟨he, hall⟩
  · rw [hp] at hverdict
    rw [good_concat, hp] at henough
    have hnow : c.successThreshold ≤ ((Past.good c ps + 1 : Nat) : Int) := le_of_eq henough.symm
    obtain ⟨he, rfl⟩ := (if_pos hnow).mp hverdict
    exact ⟨he, hall⟩
  · rw [hp] at hverdict
    obtain ⟨hb, rfl⟩ := hverdict
    exact ⟨hb, hall⟩

def pairOfProbes : Config := { successThreshold := 2 }

def goodProbe : Visit where
  breaker := { config := pairOfProbes }
  result := .ok .null

def endedBreak : Record := { status := .open, closeAt := some Schedule.beginning, version := 1 }

def endedBreakScene : Scene :=
  (Schedule.atRest Schedule.beginning (.memory [("k", endedBreak)])).scene

theorem recovery_by_history_of_twoProbes :
    ∃ e, (after "k" endedBreakScene ([goodProbe] ++ [goodProbe])).store.lookup "k" = .ok (some e) ∧
      Window.Shown pairOfProbes ⟨Schedule.beginning, []⟩ e := by
  have hfair : AllFair pairOfProbes "k" endedBreakScene ([] ++ ([goodProbe] ++ [goodProbe])) := by
    refine ⟨fair_of_still rfl rfl rfl nofun ?_ ?_ ?_, fair_of_still rfl rfl rfl nofun ?_ ?_ ?_,
      trivial⟩
    · exact ⟨⟨10000000, none, by decide⟩, by decide +kernel⟩
    · exact ⟨⟨10000000, none, by decide⟩, by decide +kernel⟩
    · exact ⟨⟨5000000, none, by decide⟩, by decide +kernel⟩
    · exact ⟨⟨10000000, none, by decide⟩, by decide +kernel⟩
    · exact ⟨⟨10000000, none, by decide⟩, by decide +kernel⟩
    · exact ⟨⟨5000000, none, by decide⟩, by decide +kernel⟩
  have hdue : ∀ w ∈ ([goodProbe] ++ [goodProbe]).head?,
      (w.before (after "k" endedBreakScene [])).now.reaches Schedule.beginning = .ok true := by
    intro w hw
    cases hw
    exact Instant.reaches_self _
  have hbad : ∀ p ∈ history "k" (after "k" endedBreakScene []) [goodProbe],
      p.verdict pairOfProbes ≠ .bad := by
    intro p hp
    rw [List.mem_singleton.1 hp]
    decide
  obtain ⟨-, -, e, he, -, hclosed, -⟩ := recovery_by_history (by decide +kernel)
    (Config.total_of_no_classifier rfl) (fun _ => rfl) hfair rfl rfl rfl hdue hbad
    (by decide +kernel)
  have hfinish : (goodProbe.past "k" (after "k" endedBreakScene [goodProbe])).finish =
      Schedule.beginning := by decide +kernel
  have hshown := (hclosed (by decide +kernel) (by decide +kernel)).1
  exact ⟨e, he, hfinish ▸ hshown⟩

def abortingProbe : Visit where
  breaker := { listeners := [.recording (some (.plain .abort none)) [.state]] }
  result := .ok .null

/-- A listener can get in the way of a probe: its failure is raised before the function starts, if it is
not ordinary. -/
theorem probe_aborted :
    abortingProbe.breaker.config.check = .ok () ∧
      (abortingProbe.before endedBreakScene).now.reaches Schedule.beginning = .ok true ∧
      (after "k" endedBreakScene [abortingProbe]).starts.count "k" = 0 ∧
      (((after "k" endedBreakScene [abortingProbe]).store.lookup "k").toOption.join.map
        (·.status)) = some .halfOpen := by
  decide +kernel

end Visit

end KeyedBreaker
