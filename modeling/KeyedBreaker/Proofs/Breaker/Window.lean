import KeyedBreaker.Proofs.Breaker.Visit
import KeyedBreaker.Proofs.Record.Counted
import KeyedBreaker.Proofs.Record.Sound

namespace KeyedBreaker

open Breaker

/-- The calls that started in a window, latest first. -/
structure Window where
  start : Instant
  calls : List Past := []

namespace Window

variable (c : Config) (w : Window)

def ended (t : Instant) : Bool :=
  match w.start.addSeconds c.samplingDuration with
  | .error _ => false
  | .ok u =>
    match t.reaches u with
    | .ok passed => passed
    | .error _ => false

/-- The window for a call that starts at this time: a new one, if the window has ended. -/
def rolled (t : Instant) : Window := if w.ended c t then ⟨t, []⟩ else w

def including (p : Past) : Window :=
  { w.rolled c p.start with calls := p :: (w.rolled c p.start).calls }

def failures : Nat := w.calls.countP fun p => p.verdict c = .bad

/-- Whether the calls in the window open the circuit at this time: the window has not ended, and the
failures and their share have reached the limits. -/
def tripped (t : Instant) : Bool :=
  !w.ended c t && c.failureThreshold ≤ w.failures c &&
    match Record.quotient (w.failures c) w.calls.length with
    | .ok share => !(share < c.failureRatio)
    | .error _ => false

/-- The window after a history of calls that begins at a time. -/
def ofHistory (t : Instant) (ps : List Past) : Window := ps.foldl (·.including c ·) ⟨t, []⟩

/-- Whether the last call of such a history opens the circuit at its end. -/
def trips (t : Instant) (ps : List Past) : Bool :=
  ps.getLast?.any fun p => (ofHistory c t ps).tripped c p.finish

/-- A record of a closed circuit that shows the window. -/
structure Shown (r : Record) : Prop where
  status : r.status = .closed
  total : r.totalCount = w.calls.length
  failures : r.failureCount = w.failures c
  successes : r.successCount = 0
  ends : ∃ u, w.start.addSeconds c.samplingDuration = .ok u ∧ r.resetAt = some u

variable {c} {w} {t t' : Instant} {r e : Record} {p : Past}

theorem ofHistory_concat (t : Instant) (ps : List Past) (p : Past) :
    ofHistory c t (ps ++ [p]) = (ofHistory c t ps).including c p := by
  rw [ofHistory, List.foldl_append]
  rfl

theorem ended_eq {u : Instant} {passed : Bool} (hu : w.start.addSeconds c.samplingDuration = .ok u)
    (hp : t.reaches u = .ok passed) : w.ended c t = passed := by
  simp only [ended, hu, hp]

theorem ended_later (h : w.ended c t = true) (ht : t'.reaches t = .ok true) :
    w.ended c t' = true := by
  unfold ended at h
  split at h
  · cases h
  · split at h
    · subst h
      exact ended_eq ‹_› (Instant.reaches_trans ht ‹_›)
    · cases h

theorem tripped_later (h : w.tripped c t = false) (ht : t'.reaches t = .ok true) :
    w.tripped c t' = false := by
  cases hw : w.ended c t with
  | true =>
      rw [tripped, ended_later hw ht]
      rfl
  | false =>
      rw [tripped, hw, Bool.not_false, Bool.true_and] at h
      rw [tripped, Bool.and_assoc, h, Bool.and_false]

theorem Shown.windowExpired (h : w.Shown c r) (ht : t.reaches w.start = .ok true) :
    r.windowExpired t = .ok (w.ended c t) := by
  obtain ⟨u, hu, hr⟩ := h.ends
  obtain ⟨passed, hp⟩ := Instant.reaches_addSeconds_of_reaches ht hu
  rw [Record.windowExpired, hr, ended_eq hu hp]
  exact hp

/-- Whether the circuit opens can be told from the window. -/
theorem Shown.opens (h : w.Shown c r) (hc : 1 ≤ c.failureThreshold)
    (ht : t.reaches w.start = .ok true) : Record.opens c t r = .ok (w.tripped c t) := by
  rw [tripped, Record.opens, h.windowExpired ht]
  cases w.ended c t with
  | true => rfl
  | false =>
      change (if r.failureCount < c.failureThreshold then _ else _) = _
      by_cases hf : r.failureCount < c.failureThreshold
      · have hfew : ¬ c.failureThreshold ≤ (w.failures c : Int) := by
          rw [← h.failures]
          omega
        rw [if_pos hf, decide_eq_false hfew]
        rfl
      · have hmany : c.failureThreshold ≤ (w.failures c : Int) := by
          rw [← h.failures]
          omega
        have hcalls : r.totalCount ≠ 0 := by
          have hle : w.failures c ≤ w.calls.length := List.countP_le_length
          rw [h.total]
          omega
        obtain ⟨share, hshare⟩ := Record.quotient_eq_ok (n := w.failures c) (d := w.calls.length)
          (Int.natCast_nonneg _) (Int.ofNat_le.2 List.countP_le_length)
        rw [if_neg hf, decide_eq_true hmany, Record.failureRatio, if_neg hcalls, h.failures, h.total,
          hshare]
        rfl

theorem Shown.permit (h : w.Shown c r) (ht : t.reaches w.start = .ok true)
    (hrange : ∃ u, t.addSeconds c.samplingDuration = .ok u) (key : String) :
    (w.rolled c t).Shown c (Record.permit c r.status key t r).1 ∧
      (Record.permit c r.status key t r).2 = .ok () := by
  rw [h.status, Record.permit, Record.rollWindow, h.windowExpired ht, rolled]
  cases w.ended c t with
  | false => exact ⟨h, rfl⟩
  | true =>
      obtain ⟨u', hu'⟩ := hrange
      rw [hu']
      exact ⟨⟨h.status, rfl, rfl, rfl, u', hu', rfl⟩, rfl⟩

theorem start_rolled (ht : t.reaches w.start = .ok true) :
    t.reaches (w.rolled c t).start = .ok true := by
  unfold rolled
  split
  · exact Instant.reaches_self t
  · exact ht

theorem failures_cons (p : Past) :
    ({ w with calls := p :: w.calls } : Window).failures c =
      w.failures c + if p.verdict c = .bad then 1 else 0 := by
  simp only [failures, List.countP_cons, decide_eq_true_eq]

theorem Shown.settle (h : w.Shown c r) (hj : c.Judges p.result) (hp : p.verdict c ≠ .void) :
    Shown c { w with calls := p :: w.calls } (Record.settle c .closed r p.result).1 := by
  have hgood : p.verdict c = .good → Shown c { w with calls := p :: w.calls }
      (Record.countGood .closed r) := by
    intro hg
    refine ⟨h.status, ?_, ?_, h.successes, h.ends⟩
    · change r.totalCount + 1 = _
      rw [h.total, List.length_cons]
      rfl
    · rw [failures_cons, hg]
      exact h.failures
  unfold Record.settle
  cases hr : p.result with
  | ok v => exact hgood (Past.verdict_of_ok hr)
  | error f =>
      dsimp only
      by_cases ho : f.isOrdinary
      · rw [if_pos ho]
        obtain ⟨counted, hcounts⟩ := hj f hr ho
        have hverdict := Past.verdict_of_counts hr ho hcounts
        rw [hcounts]
        cases counted with
        | false => exact hgood hverdict
        | true =>
            refine ⟨h.status, ?_, ?_, h.successes, h.ends⟩
            · change r.totalCount + 1 = _
              rw [h.total, List.length_cons]
              rfl
            · change r.failureCount + 1 = _
              rw [failures_cons, hverdict, h.failures]
              rfl
      · exact absurd (Past.verdict_eq_void_iff.2 ⟨f, hr, Bool.eq_false_iff.2 ho⟩) hp

theorem shown_of_entered {previous : Option Status} (h : Record.Entered c .closed t r e) :
    Shown c ⟨t, []⟩ ({ e with previousStatus := previous } : Record) :=
  ⟨h.status, h.totalCount, h.failureCount, h.successCount, h.windowEnds rfl⟩

theorem Shown.next (h : w.Shown c r) : w.Shown c r.next :=
  ⟨h.status, h.total, h.failures, h.successes, h.ends⟩

end Window

/-- A record of a circuit whose break began at this time. -/
structure Record.Broken (c : Config) (t : Instant) (r : Record) : Prop where
  status : r.status = .open
  total : r.totalCount = 0
  failures : r.failureCount = 0
  successes : r.successCount = 0
  ends : ∃ u, t.addSeconds c.breakDuration = .ok u ∧ r.closeAt = some u

theorem Record.broken_of_entered {c : Config} {t : Instant} {r e : Record}
    {previous : Option Status} (h : Entered c .open t r e) :
    ({ e with previousStatus := previous } : Record).next.Broken c t :=
  ⟨h.status, h.totalCount, h.failureCount, h.successCount, h.breakEnds rfl⟩

namespace Breaker

variable {b : Breaker} {t : Instant} {r e : Record} {target : Status}

theorem change_of_due_some (hd : Record.due b.config r.status t r = .ok (some target))
    (he : b.enter target t r = .ok e) : b.change t r = .ok (some (target, e)) := by
  rw [change, hd]
  dsimp only
  rw [he]

theorem renewed_of_due_none (hd : Record.due b.config r.status t r = .ok none) :
    b.renewed t r = .ok r := by
  rw [renewed, change_of_due_none hd]
  rfl

theorem renewed_of_due_some (hd : Record.due b.config r.status t r = .ok (some target))
    (he : b.enter target t r = .ok e) : b.renewed t r = .ok e := by
  rw [renewed, change_of_due_some hd he]
  rfl

end Breaker

namespace Window

variable {c : Config} {w : Window} {t : Instant} {r : Record}

theorem Shown.due (h : w.Shown c r) (hc : 1 ≤ c.failureThreshold) (ht : t.reaches w.start = .ok true) :
    Record.due c r.status t r = .ok (if w.tripped c t then some .open else none) := by
  rw [h.status, Record.due, h.opens hc ht]
  cases w.tripped c t <;> rfl

end Window

namespace Visit

variable {v : Visit} {key : String} {s : Scene} {c : Config} {w : Window} {t t₀ : Instant}
  {vs : List Visit}

theorem Fair.spans (hf : v.Fair key s c) : v.breaker.Spans (v.ending key s).now :=
  ⟨hf.config ▸ hf.nextWindowEnd, hf.config ▸ hf.breakEnd⟩

section

variable {r : Record} {x : Option Record} {rs : List Record} (h : v.Runs key s x r rs)
  (hf : v.Fair key s c) (hj : c.Judges v.result) (hp : (v.past key s).verdict c ≠ .void)
include h hf hj hp

/-- A transition that the record owes when the function has ended is stored and announced. -/
theorem Runs.leaves_due {target : Status}
    (hdue : Record.due c (v.counted key s r).status (v.ending key s).now (v.counted key s r) =
      .ok (some target)) :
    ∃ e previous, Record.Entered c target (v.ending key s).now (v.counted key s r) e ∧
      v.Leaves key s (some ({ e with previousStatus := previous } : Record).next)
        (v.breaker.tidings key (v.counted key s r).status target ++
          v.breaker.report key (v.breaker.precedes (v.before s).now x)) := by
  rw [← hf.config] at hdue
  obtain ⟨e, he⟩ := hf.spans.entering target (v.counted key s r)
  have hl := h.leaves_counted hf hj (fun f hr => Past.isOrdinary_of_verdict hp hr)
    (renewed_of_due_some hdue he)
  rw [owed_of_change (change_of_due_some hdue he)] at hl
  obtain ⟨entered, hent, rfl⟩ := enter_eq_ok he
  rw [hf.config] at hent
  exact ⟨entered, _, hent, hl⟩

/-- If it owes none, it is stored with the result counted. -/
theorem Runs.leaves_undue
    (hdue : Record.due c (v.counted key s r).status (v.ending key s).now (v.counted key s r) =
      .ok none) :
    v.Leaves key s (some (v.counted key s r).next)
      (v.breaker.report key (v.breaker.precedes (v.before s).now x)) := by
  rw [← hf.config] at hdue
  have hl := h.leaves_counted hf hj (fun f hr => Past.isOrdinary_of_verdict hp hr)
    (renewed_of_due_none hdue)
  rwa [owed_of_unchanged (change_of_due_none hdue)] at hl

end

/-- A call that starts at this time loads a record that shows the window, and the circuit does not
open before it. -/
structure Ready (c : Config) (key : String) (s : Scene) (t : Instant) (w : Window) : Prop where
  quiet : s.Quiet
  loads : ∃ x r, s.store.lookup key = .ok x ∧
    (∀ b : Breaker, b.config = c → b.loaded t (.ok x) = .ok r) ∧ w.Shown c r
  begun : t.reaches w.start = .ok true
  calm : w.tripped c t = false

/-- A call in a closed circuit is counted in its window, and opens the circuit if the calls in the
window then do. -/
theorem Ready.leaves (h : Ready c key s (v.before s).now w) (hf : v.Fair key s c)
    (hc : 1 ≤ c.failureThreshold) (hj : c.Judges v.result) (hp : (v.past key s).verdict c ≠ .void) :
    (v.past key s).finish.reaches (w.including c (v.past key s)).start = .ok true ∧
      ∃ r news, v.Leaves key s (some r) news ∧
        if (w.including c (v.past key s)).tripped c (v.past key s).finish then
          r.Broken c (v.past key s).finish
        else (w.including c (v.past key s)).Shown c r := by
  obtain ⟨x, r, hx, hload, hw⟩ := h.loads
  have hload := hload v.breaker hf.config
  have hdue := hw.due hc h.begun
  rw [h.calm] at hdue
  obtain ⟨hrolled, hpermit⟩ := hw.permit h.begun hf.windowEnd key
  have hruns : v.Runs key s x r [] := by
    refine ⟨h.quiet, hx, .loaded hload (change_of_due_none ?_), ?_⟩ <;> rw [hf.config]
    · exact hdue
    · exact hpermit
  have hbegun : (v.past key s).finish.reaches (w.including c (v.past key s)).start = .ok true :=
    Instant.reaches_trans (hruns.underway hf).forward (Window.start_rolled h.begun)
  refine ⟨hbegun, ?_⟩
  have hcounted : (w.including c (v.past key s)).Shown c (v.counted key s r) := by
    rw [counted, hf.config]
    rw [hw.status] at hrolled ⊢
    exact hrolled.settle hj hp
  have hdue := hcounted.due hc hbegun
  cases htripped : (w.including c (v.past key s)).tripped c (v.past key s).finish with
  | true =>
      rw [htripped] at hdue
      obtain ⟨e, previous, he, hl⟩ := hruns.leaves_due hf hj hp hdue
      exact ⟨_, _, hl, Record.broken_of_entered he⟩
  | false =>
      rw [htripped] at hdue
      exact ⟨_, _, hruns.leaves_undue hf hj hp hdue, hcounted.next⟩

/-- The first window of the calls begins at this time: the key has no record yet and the first call
starts then, or its record entered the closed status then. -/
def Begins (c : Config) (key : String) (t₀ : Instant) (s : Scene) (vs : List Visit) : Prop :=
  (s.store.lookup key = .ok none ∧ ∀ v ∈ vs.head?, (v.before s).now = t₀) ∨
    s.now.reaches t₀ = .ok true ∧ ∃ r, s.store.lookup key = .ok (some r) ∧ Window.Shown c ⟨t₀, []⟩ r

theorem ready_of_history (hc : 1 ≤ c.failureThreshold) (hj : ∀ u ∈ vs, c.Judges u.result)
    (hq : s.Quiet) (hs : Begins c key t₀ s (vs ++ [v])) (hfair : AllFair c key s (vs ++ [v]))
    (hvoid : ∀ p ∈ history key s vs, p.verdict c ≠ .void)
    (hcalm : ∀ ps, ps <+: history key s vs → Window.trips c t₀ ps = false) :
    Ready c key (after key s vs) (v.before (after key s vs)).now
      (Window.ofHistory c t₀ (history key s vs)) := by
  induction vs using List.reverseRecOn generalizing v with
  | nil =>
      obtain ⟨-, hf⟩ := allFair_concat.1 hfair
      have hcalm : ∀ t, Window.tripped c ⟨t₀, []⟩ t = false := by
        intro t
        have hfew : ¬ c.failureThreshold ≤ ((⟨t₀, []⟩ : Window).failures c : Int) := by
          change ¬ c.failureThreshold ≤ 0
          omega
        rw [Window.tripped, decide_eq_false hfew, Bool.and_false, Bool.false_and]
      rcases hs with ⟨hx, hstart⟩ | ⟨ht₀, r, hx, hr⟩
      · have hstart : (v.before s).now = t₀ := hstart v rfl
        obtain ⟨u, hu⟩ := hf.windowEnd
        refine ⟨hq, ⟨none, { status := .closed, resetAt := some u }, hx, fun b hb => ?_, ?_⟩, ?_,
          hcalm _⟩
        · change (v.before s).now.addSeconds c.samplingDuration = .ok u at hu
          change b.loaded (v.before s).now (.ok none) = _
          rw [loaded, Record.entering, hb, hu]
          rfl
        · exact ⟨rfl, rfl, rfl, rfl, u, hstart ▸ hu, rfl⟩
        · change (v.before s).now.reaches t₀ = .ok true
          rw [hstart]
          exact Instant.reaches_self t₀
      · exact ⟨hq, ⟨some r, r, hx, fun _ _ => rfl, hr⟩,
          Instant.reaches_trans hf.before.forward ht₀, hcalm _⟩
  | append_singleton us u ih =>
      obtain ⟨hfair', hf⟩ := allFair_concat.1 hfair
      obtain ⟨-, hfu⟩ := allFair_concat.1 hfair'
      rw [history_concat] at hvoid hcalm ⊢
      have hfirst : (us ++ [u] ++ [v]).head? = (us ++ [u]).head? := by cases us <;> rfl
      rw [Begins, hfirst] at hs
      have hready := ih (fun w hw => hj w (List.mem_append_left _ hw)) hs hfair'
        (fun p hp => hvoid p (List.mem_append_left _ hp))
        (fun ps hps => hcalm ps (hps.trans (List.prefix_append _ _)))
      obtain ⟨hbegun, r, news, hl, hr⟩ := hready.leaves hfu hc (hj u (List.mem_append_right _ List.mem_cons_self))
        (hvoid _ (List.mem_append_right _ List.mem_cons_self))
      have hlast := hcalm _ (List.prefix_refl _)
      rw [Window.trips, List.getLast?_concat, Option.any_some, Window.ofHistory_concat] at hlast
      rw [hlast] at hr
      rw [after_concat] at hf ⊢
      rw [Window.ofHistory_concat]
      have hforward := hf.before.forward
      rw [hl.now] at hforward
      exact ⟨hl.quiet, ⟨some r, r, hl.lookup, fun _ _ => rfl, hr⟩,
        Instant.reaches_trans hforward hbegun, Window.tripped_later hlast hforward⟩

/-- The law of the closed circuit. As long as no call has opened it, the counters after a call are
those of the calls that started in the current window; and it opens at exactly the first call at whose
end these calls open it. -/
theorem closed_by_history (hc : c.check = .ok ()) (ht : c.Total) (hq : s.Quiet)
    (hs : Begins c key t₀ s (vs ++ [v])) (hfair : AllFair c key s (vs ++ [v]))
    (hordinary : ∀ u ∈ vs ++ [v], ∀ f, u.result = .error f → f.isOrdinary = true)
    (hcalm : ∀ ps, ps <+: history key s vs → Window.trips c t₀ ps = false) :
    (Window.trips c t₀ (history key s (vs ++ [v])) = false →
        ∃ r, (after key s (vs ++ [v])).store.lookup key = .ok (some r) ∧
          (Window.ofHistory c t₀ (history key s (vs ++ [v]))).Shown c r) ∧
      (Window.trips c t₀ (history key s (vs ++ [v])) = true →
        ∃ r, (after key s (vs ++ [v])).store.lookup key = .ok (some r) ∧
          r.Broken c (v.past key (after key s vs)).finish) := by
  have hthreshold := (Record.thresholds_of_check hc).2
  have hvoid : ∀ p ∈ history key s (vs ++ [v]), p.verdict c ≠ .void := by
    intro p hp hverdict
    obtain ⟨f, hr, ho⟩ := Past.verdict_eq_void_iff.1 hverdict
    obtain ⟨u, hu, hpu⟩ := exists_of_mem_history hp
    rw [hordinary u hu f (hpu ▸ hr)] at ho
    cases ho
  rw [history_concat] at hvoid ⊢
  have hready := ready_of_history hthreshold (fun u _ => ht.judges u.result) hq hs hfair
    (fun p hp => hvoid p (List.mem_append_left _ hp)) hcalm
  obtain ⟨-, r, news, hl, hr⟩ := hready.leaves (allFair_concat.1 hfair).2 hthreshold (ht.judges _)
    (hvoid _ (List.mem_append_right _ List.mem_cons_self))
  rw [Window.trips, List.getLast?_concat, Option.any_some, Window.ofHistory_concat, after_concat]
  refine ⟨fun h => ⟨r, hl.lookup, ?_⟩, fun h => ⟨r, hl.lookup, ?_⟩⟩ <;> rw [h] at hr
  · exact hr
  · exact hr

def pairConfig : Config := { failureThreshold := 2 }

def failedVisit : Visit where
  breaker := { config := pairConfig }
  result := .error (.plain .value none)

theorem closed_by_history_of_twoFailures :
    ∃ r, (after "k" emptyScene ([failedVisit] ++ [failedVisit])).store.lookup "k" = .ok (some r) ∧
      r.Broken pairConfig Schedule.beginning := by
  have hfair : AllFair pairConfig "k" emptyScene ([failedVisit] ++ [failedVisit]) := by
    refine ⟨fair_of_still rfl rfl rfl nofun ?_ ?_ ?_, fair_of_still rfl rfl rfl nofun ?_ ?_ ?_, trivial⟩
    · exact ⟨⟨10000000, none, by decide⟩, by decide +kernel⟩
    · exact ⟨⟨10000000, none, by decide⟩, by decide +kernel⟩
    · exact ⟨⟨5000000, none, by decide⟩, by decide +kernel⟩
    · exact ⟨⟨10000000, none, by decide⟩, by decide +kernel⟩
    · exact ⟨⟨10000000, none, by decide⟩, by decide +kernel⟩
    · exact ⟨⟨5000000, none, by decide⟩, by decide +kernel⟩
  have hordinary : ∀ u ∈ [failedVisit] ++ [failedVisit], ∀ f, u.result = .error f →
      f.isOrdinary = true := by
    intro u hu f hf
    have hu : u = failedVisit := by simpa using hu
    subst hu
    cases hf
    decide
  have hcalm : ∀ ps, ps <+: history "k" emptyScene [failedVisit] →
      Window.trips pairConfig Schedule.beginning ps = false := by
    intro ps hps
    rcases List.prefix_cons_iff.1 hps with rfl | ⟨qs, rfl, hqs⟩
    · rfl
    · rw [List.prefix_nil.1 hqs]
      decide +kernel
  have hbegins : Begins pairConfig "k" Schedule.beginning emptyScene ([failedVisit] ++ [failedVisit]) :=
    .inl ⟨rfl, fun v hv => by cases hv; rfl⟩
  obtain ⟨r, hr, hbroken⟩ := (closed_by_history (by decide +kernel) (Config.total_of_no_classifier rfl)
    (fun _ => rfl) hbegins hfair hordinary hcalm).2 (by decide +kernel)
  have hfinish : (failedVisit.past "k" (after "k" emptyScene [failedVisit])).finish =
      Schedule.beginning := by decide +kernel
  exact ⟨r, hr, hfinish ▸ hbroken⟩

def abortingVisit : Visit where
  breaker :=
    { config := { pairConfig with failureThreshold := 1 }
      listeners := [.recording (some (.plain .abort none)) [.state]] }
  result := .error (.plain .value none)

/-- A listener can get in the way of a transition: its failure is raised before the record is stored, if
it is not ordinary. -/
theorem opening_aborted :
    abortingVisit.breaker.config.check = .ok () ∧
      Window.trips abortingVisit.breaker.config Schedule.beginning
        (history "k" emptyScene [abortingVisit]) = true ∧
      ((after "k" emptyScene [abortingVisit]).store.lookup "k").toOption = some none := by
  decide +kernel

end Visit

end KeyedBreaker
