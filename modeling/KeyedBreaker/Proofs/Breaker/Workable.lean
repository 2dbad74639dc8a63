import KeyedBreaker.Proofs.Breaker.Tidy
import KeyedBreaker.Proofs.Breaker.Window
import KeyedBreaker.Proofs.Calendar.Duration

namespace KeyedBreaker

open Act Breaker

/-- The durations lead from this time to other dates, and a window does not end as it begins. -/
structure Breaker.Workable (b : Breaker) (t : Instant) : Prop where
  window : ∃ u, t.addSeconds b.config.samplingDuration = .ok u ∧ t.reaches u = .ok false
  breakEnd : ∃ u, t.addSeconds b.config.breakDuration = .ok u

theorem Breaker.Workable.spans {b : Breaker} {t : Instant} (h : b.Workable t) : b.Spans t where
  windowEnd := by
    obtain ⟨u, hu, -⟩ := h.window
    exact ⟨u, hu⟩
  breakEnd := h.breakEnd

/-- Durations of some seven thousand years at most; a window lasts a microsecond at least. -/
structure Limits.Moderate (l : Limits) : Prop where
  shortest : Binary64.ofRatio 1 (10 ^ 6) ≤ l.samplingDuration
  longest : l.samplingDuration ≤ Binary64.ofInt Duration.longest
  longestBreak : l.breakDuration ≤ Binary64.ofInt Duration.longest

/-- Moderate limits work at all times up to the year 2100. -/
theorem Limits.Moderate.workable {b : Breaker} {t : Instant} (h : b.config.Moderate)
    (hc : b.config.check = .ok ()) (ht : t.year ≤ 2100) : b.Workable t := by
  have hwindow : ¬ b.config.samplingDuration < Binary64.zero := fun hlt =>
    absurd (Binary64.lt_of_le_of_lt h.shortest hlt) (by decide +kernel)
  obtain ⟨u, hu, hreaches⟩ := Instant.addSeconds_of_le ht hwindow h.longest
  have hbreak := (Limits.check_eq_ok_iff.1 hc).breakDuration
  obtain ⟨v, hv, -⟩ := Instant.addSeconds_of_le ht hbreak h.longestBreak
  exact ⟨⟨u, hu, hreaches h.shortest⟩, v, hv⟩

namespace Window

variable {c : Config} {t : Instant} {f : Failure} {k : Nat}

def failed (t : Instant) (f : Failure) : Past := ⟨t, t, .error f⟩

theorem start_including (w : Window) (hw : w.start = t) :
    (w.including c (failed t f)).start = t := by
  change (w.rolled c t).start = t
  unfold rolled
  split
  · rfl
  · exact hw

theorem start_ofHistory (c : Config) (t : Instant) (f : Failure) (k : Nat) :
    (ofHistory c t (List.replicate k (failed t f))).start = t := by
  induction k with
  | zero => rfl
  | succ k ih =>
      rw [List.replicate_succ', ofHistory_concat]
      exact start_including _ ih

/-- In a window that does not end as it begins, all these calls are counted. -/
theorem ofHistory_failed (hend : Window.ended c ⟨t, []⟩ t = false) (k : Nat) :
    ofHistory c t (List.replicate k (failed t f)) = ⟨t, List.replicate k (failed t f)⟩ := by
  induction k with
  | zero => rfl
  | succ k ih =>
      have hrolled : Window.rolled c ⟨t, List.replicate k (failed t f)⟩ t =
          ⟨t, List.replicate k (failed t f)⟩ := if_neg (by
        change ¬ Window.ended c ⟨t, []⟩ t = true
        rw [hend]
        exact Bool.false_ne_true)
      rw [List.replicate_succ', ofHistory_concat, ih, including]
      change Window.mk (Window.rolled c _ t).start (failed t f :: (Window.rolled c _ t).calls) = _
      rw [hrolled, ← List.replicate_succ, List.replicate_succ']

theorem tripped_failed (hend : Window.ended c ⟨t, []⟩ t = false) (hc : c.check = .ok ())
    (ho : f.isOrdinary = true) (hf : c.counts f = .ok true) :
    (ofHistory c t (List.replicate k (failed t f))).tripped c t = decide (c.failureThreshold ≤ k) := by
  have hbad : (failed t f).verdict c = .bad := Past.verdict_of_counts rfl ho hf
  obtain ⟨-, hthreshold, -, -, -, hratio⟩ := Limits.check_eq_ok_iff.1 hc
  have hfailures : Window.failures c ⟨t, List.replicate k (failed t f)⟩ = k := by
    rw [failures, List.countP_replicate, hbad]
    rfl
  rw [ofHistory_failed hend, tripped, hfailures, List.length_replicate]
  have hend : Window.ended c ⟨t, List.replicate k (failed t f)⟩ t = false := hend
  rw [hend]
  by_cases hk : c.failureThreshold ≤ k
  · have hshare : ¬ Binary64.ofInt 1 < c.failureRatio := Binary64.not_lt_of_le hratio
    rw [Record.quotient_self (by omega), decide_eq_true hk]
    dsimp only
    rw [decide_eq_false hshare]
    rfl
  · rw [decide_eq_false hk]
    rfl

/-- In a window that ends as it begins they never do. -/
theorem tripped_of_ended (hend : Window.ended c ⟨t, []⟩ t = true) :
    (ofHistory c t (List.replicate k (failed t f))).tripped c t = false := by
  have hstart := start_ofHistory c t f k
  have hended : (ofHistory c t (List.replicate k (failed t f))).ended c t = true := by
    unfold ended at hend ⊢
    rw [hstart]
    exact hend
  rw [tripped, hended]
  rfl

end Window

namespace Visit

variable {b : Breaker} {key : String} {s : Scene} {t : Instant} {f : Failure} {k : Nat}

def afterFailures (b : Breaker) (key : String) (s : Scene) (f : Failure) (k : Nat) : Scene :=
  after key s (List.replicate k (still b (.error f)))

theorem tidy_afterFailures (h : s.Tidy t key) : (afterFailures b key s f k).Tidy t key := by
  induction k generalizing s with
  | zero => exact h
  | succ k ih => exact ih (h.call b (.error f))

theorem past_still (h : s.Tidy t key) :
    (still b (.error f)).past key s = Window.failed t f := by
  have hending : ((still b (.error f)).ending key s).now = t :=
    ((still b (.error f)).sameClock_entry key s).1.trans h.now
  rw [past, hending]
  exact congrArg (Past.mk · t (.error f)) h.now

theorem history_failures (h : s.Tidy t key) :
    history key s (List.replicate k (still b (.error f))) =
      List.replicate k (Window.failed t f) := by
  induction k generalizing s with
  | zero => rfl
  | succ k ih =>
      rw [List.replicate_succ, List.replicate_succ, history, past_still h, ih (h.call b (.error f))]

theorem fair_still (h : s.Tidy t key) (hb : b.Polite) (hspans : b.Spans t)
    (result : Except Failure Json) : (still b result).Fair key s b.config := by
  have hending : ((still b result).ending key s).now = t :=
    ((still b result).sameClock_entry key s).1.trans h.now
  have hnow : ((still b result).before s).now = t := h.now
  refine fair_of_still rfl rfl rfl hb ?_ ?_ ?_
  · rw [hnow]
    exact hspans.windowEnd
  · rw [hending]
    exact hspans.windowEnd
  · rw [hending]
    exact hspans.breakEnd

theorem allFair_failures (h : s.Tidy t key) (hb : b.Polite) (hspans : b.Spans t) :
    AllFair b.config key s (List.replicate k (still b (.error f))) := by
  induction k generalizing s with
  | zero => trivial
  | succ k ih => exact ⟨fair_still h hb hspans _, ih (h.call b _)⟩

theorem tidy_of_fresh (hq : s.Quiet) (hx : s.store.lookup key = .ok none) : s.Tidy s.now key :=
  ⟨hq, rfl, none, hx, fun _ h => by cases h⟩

section

variable (hc : b.config.check = .ok ()) (hb : b.Polite) (ho : f.isOrdinary = true)
  (hf : b.config.counts f = .ok true) (hq : s.Quiet) (hx : s.store.lookup key = .ok none)
  (hspans : b.Spans s.now)
include hc hb ho hf hq hx hspans

theorem ready_afterFailures
    (hcalm : ∀ j ≤ k, 0 < j →
      (Window.ofHistory b.config s.now (List.replicate j (Window.failed s.now f))).tripped b.config
        s.now = false) :
    Ready b.config key (afterFailures b key s f k) s.now
      (Window.ofHistory b.config s.now (List.replicate k (Window.failed s.now f))) := by
  have htidy := tidy_of_fresh hq hx
  have hhistory := history_failures (b := b) (f := f) (k := k) htidy
  have hbad : (Window.failed s.now f).verdict b.config = .bad := Past.verdict_of_counts rfl ho hf
  have hbegins : Begins b.config key s.now s
      (List.replicate k (still b (.error f)) ++ [still b (.error f)]) := by
    refine .inl ⟨hx, fun v hv => ?_⟩
    rw [← List.replicate_succ', List.replicate_succ] at hv
    cases hv
    rfl
  have hready := ready_of_history (Record.thresholds_of_check hc).2
    (fun v hv => List.eq_of_mem_replicate hv ▸ Config.judges_of_counts hf) hq hbegins
    (by rw [← List.replicate_succ']; exact allFair_failures htidy hb hspans)
    (fun p hp => by
      rw [hhistory] at hp
      rw [List.eq_of_mem_replicate hp, hbad]
      decide)
    (fun ps hps => by
      rw [hhistory] at hps
      obtain ⟨j, hj, rfl⟩ : ∃ j ≤ k, ps = List.replicate j (Window.failed s.now f) := by
        refine ⟨ps.length, by simpa using hps.length_le, ?_⟩
        exact List.eq_replicate_of_mem fun p hp => List.eq_of_mem_replicate (hps.subset hp)
      cases j with
      | zero => rfl
      | succ j =>
          rw [Window.trips, List.replicate_succ', List.getLast?_concat, Option.any_some,
            ← List.replicate_succ']
          exact hcalm _ hj (Nat.succ_pos j))
  rw [hhistory] at hready
  have hnow : (afterFailures b key s f k).now = s.now := (tidy_afterFailures htidy).now
  exact hnow ▸ hready

theorem leaves_afterFailures
    (hcalm : ∀ j ≤ k, 0 < j →
      (Window.ofHistory b.config s.now (List.replicate j (Window.failed s.now f))).tripped b.config
        s.now = false) :
    ∃ r news, (still b (.error f)).Leaves key (afterFailures b key s f k) (some r) news ∧
      if (Window.ofHistory b.config s.now
          (List.replicate (k + 1) (Window.failed s.now f))).tripped b.config s.now then
        r.Broken b.config s.now
      else r.status = .closed := by
  have htidy := tidy_afterFailures (b := b) (f := f) (k := k) (tidy_of_fresh hq hx)
  have hbad : (Window.failed s.now f).verdict b.config = .bad := Past.verdict_of_counts rfl ho hf
  have hpast := past_still (b := b) (f := f) htidy
  have hready := ready_afterFailures hc hb ho hf hq hx hspans hcalm
  rw [← htidy.now] at hready
  obtain ⟨-, r, news, hl, hr⟩ := hready.leaves (fair_still htidy hb hspans (.error f))
    (Record.thresholds_of_check hc).2 (Config.judges_of_counts hf) (by rw [hpast, hbad]; decide)
  rw [hpast, htidy.now, ← Window.ofHistory_concat, ← List.replicate_succ'] at hr
  refine ⟨r, news, hl, ?_⟩
  change if (Window.ofHistory b.config s.now _).tripped b.config s.now = true then
    r.Broken b.config s.now else _ at hr
  split at hr
  · rw [if_pos ‹_›]
    exact hr
  · rw [if_neg ‹_›]
    exact hr.status

end

theorem status_of_lookup {x : Option Record} {r : Record} (hb : b.Polite) (hq : s.Quiet)
    (hx : s.store.lookup key = .ok x) (hr : b.loaded s.now (.ok x) = .ok r) :
    ((Errand.status.act b key).play s).1 = .ok (.status r.status) :=
  (Errand.yields_act hq hx hr .status).of_polite hb

end Visit

namespace Breaker

open Visit

variable {b : Breaker} {key : String} {s : Scene} {f : Failure}

/-- A breaker works on a key for failures of one kind, before any time passes. As many of them as the
threshold says open the circuit, which is closed until then, and each is raised as it is. Whatever else is
done to the key, every operation has its answer, and every call ends with that of its function or is
turned away. -/
structure Works (b : Breaker) (key : String) (s : Scene) (f : Failure) : Prop where
  raised : ∀ k : Nat, (k : Int) < b.config.failureThreshold →
    ((still b (.error f)).run key (afterFailures b key s f k)).1 = .error f
  closed : ∀ k : Nat, (k : Int) < b.config.failureThreshold →
    ((Errand.status.act b key).play (afterFailures b key s f k)).1 = .ok (.status .closed)
  opened : ∀ k : Nat, (k : Int) = b.config.failureThreshold →
    ((Errand.status.act b key).play (afterFailures b key s f k)).1 = .ok (.status .open)
  answers : ∀ cs m, ∃ a, ((Errand.act b key m).play (Chore.afterAll b key s cs)).1 = .ok a
  handles : ∀ cs result, ∃ x, (Chore.afterAll b key s cs).store.lookup key = .ok x ∧
    (still b result).Handled key (Chore.afterAll b key s cs) x

/-- Where the status of a fresh key can be told and its circuit be tripped, the durations lead to
dates. -/
theorem spans_of_answers (hb : b.Polite) (hq : s.Quiet) (hx : s.store.lookup key = .ok none)
    (h : ∀ m, ∃ a, ((Errand.act b key m).play s).1 = .ok a) : b.Spans s.now := by
  cases hwindow : s.now.addSeconds b.config.samplingDuration with
  | error e =>
      exfalso
      obtain ⟨s₁, hload, -⟩ := b.load_leads hq key
      have hr : b.loaded s.now (.ok none) = .error (.time e) := by
        rw [loaded, Record.entering, hwindow]
        rfl
      rw [hx, hr] at hload
      obtain ⟨a, ha⟩ := h .status
      rw [Errand.play_act_of_unloaded hload] at ha
      cases ha
  | ok u =>
      have hr : b.loaded s.now (.ok none) = .ok { status := .closed, resetAt := some u } := by
        rw [loaded, Record.entering, hwindow]
        rfl
      refine ⟨⟨u, hwindow⟩, ?_⟩
      cases hbreak : s.now.addSeconds b.config.breakDuration with
      | ok v => exact ⟨v, rfl⟩
      | error e =>
          exfalso
          obtain ⟨a, ha⟩ := h (.force .open)
          rw [(Errand.yields_act hq hx hr (.force .open)).of_polite hb, Errand.answer, forced, enter,
            Record.entering, hbreak] at ha
          cases ha

section

variable (hc : b.config.check = .ok ()) (hb : b.Polite) (ho : f.isOrdinary = true)
  (hf : b.config.counts f = .ok true) (hq : s.Quiet) (hx : s.store.lookup key = .ok none)
include hc hb ho hf hq hx

theorem closed_afterFailures (hspans : b.Spans s.now) {k : Nat}
    (hcalm : ∀ j ≤ k, 0 < j →
      (Window.ofHistory b.config s.now (List.replicate j (Window.failed s.now f))).tripped b.config
        s.now = false) :
    ((Errand.status.act b key).play (afterFailures b key s f k)).1 = .ok (.status .closed) := by
  have hready := ready_afterFailures hc hb ho hf hq hx hspans hcalm
  obtain ⟨x, r, hlookup, hload, hshown⟩ := hready.loads
  have hnow := (tidy_afterFailures (b := b) (f := f) (k := k) (tidy_of_fresh hq hx)).now
  rw [status_of_lookup hb hready.quiet hlookup (hnow ▸ hload b rfl), hshown.status]

theorem works_of_workable (h : b.Workable s.now) : b.Works key s f := by
  obtain ⟨u, hu, hreaches⟩ := h.window
  have hend : Window.ended b.config ⟨s.now, []⟩ s.now = false := Window.ended_eq hu hreaches
  have htidy := tidy_of_fresh hq hx
  have hcalm : ∀ k : Nat, (k : Int) < b.config.failureThreshold → ∀ j ≤ k, 0 < j →
      (Window.ofHistory b.config s.now (List.replicate j (Window.failed s.now f))).tripped b.config
        s.now = false := by
    intro k hk j hj _
    rw [Window.tripped_failed hend hc ho hf]
    exact decide_eq_false (by omega)
  refine ⟨fun k hk => ?_, fun k hk => ?_, fun k hk => ?_, fun cs m => ?_, fun cs result => ?_⟩
  · obtain ⟨r, news, hl, -⟩ := leaves_afterFailures hc hb ho hf hq hx h.spans (hcalm k hk)
    exact hl.result
  · exact closed_afterFailures hc hb ho hf hq hx h.spans (hcalm k hk)
  · have hpos := (Record.thresholds_of_check hc).2
    obtain ⟨j, rfl⟩ : ∃ j, k = j + 1 := ⟨k - 1, by omega⟩
    obtain ⟨r, news, hl, hr⟩ := leaves_afterFailures hc hb ho hf hq hx h.spans (hcalm j (by omega))
    rw [Window.tripped_failed hend hc ho hf, decide_eq_true hk.ge, if_pos rfl] at hr
    have hafter : afterFailures b key s f (j + 1) =
        ((still b (.error f)).run key (afterFailures b key s f j)).2 := by
      rw [afterFailures, List.replicate_succ', after_concat]
      rfl
    rw [hafter, status_of_lookup hb hl.quiet hl.lookup rfl, hr.status]
  · exact (htidy.afterAll b cs).answers h.spans hb m
  · exact (htidy.afterAll b cs).handles h.spans result

theorem workable_of_works (h : b.Works key s f) : b.Workable s.now := by
  have hspans := spans_of_answers hb hq hx (h.answers [])
  obtain ⟨u, hu⟩ := hspans.windowEnd
  obtain ⟨passed, hreaches⟩ := Instant.reaches_addSeconds hu
  cases passed with
  | false => exact ⟨⟨u, hu, hreaches⟩, hspans.breakEnd⟩
  | true =>
      -- the window ends as it begins, and the circuit never opens
      exfalso
      have hend : Window.ended b.config ⟨s.now, []⟩ s.now = true := Window.ended_eq hu hreaches
      have hpos := (Record.thresholds_of_check hc).2
      have hopen := h.opened b.config.failureThreshold.toNat (by omega)
      have hclosed := closed_afterFailures (k := b.config.failureThreshold.toNat) hc hb ho hf hq hx
        hspans fun _ _ _ => Window.tripped_of_ended hend
      rw [hclosed] at hopen
      cases hopen

/-- Limits that are not refused work at a time exactly when their durations lead from it to dates and a
window does not end as it begins. All moderate ones do, up to the year 2100. -/
theorem works_iff_workable : (b.Works key s f ↔ b.Workable s.now) ∧
    (b.config.Moderate → s.now.year ≤ 2100 → b.Works key s f) :=
  ⟨⟨workable_of_works hc hb ho hf hq hx, works_of_workable hc hb ho hf hq hx⟩, fun hm ht =>
    works_of_workable hc hb ho hf hq hx (hm.workable hc ht)⟩

end

def freshScene : Scene where
  now := newYear
  store := .memory []

theorem works_iff_workable_default :
    Works {} "k" freshScene (.plain .system (some "bad")) :=
  (works_iff_workable (by decide +kernel)
    (fun _ h => absurd h List.not_mem_nil) rfl rfl (fun _ => rfl) rfl).2
    ⟨by decide +kernel, by decide +kernel, by decide +kernel⟩ (by decide +kernel)

def endlessWindow : Breaker where
  config := { samplingDuration := .nan }

def emptyWindow : Breaker where
  config := { failureThreshold := 1, samplingDuration := Binary64.ofRatio 1 (10 ^ 7) }

/-- Neither is refused. With the first not even the status of a key can be told; with the second a failure
does not open the circuit, whatever the threshold says. -/
theorem accepted_unworkable :
    endlessWindow.config.check = .ok () ∧ emptyWindow.config.check = .ok () ∧
      ((Errand.status.act endlessWindow "k").play freshScene).1 matches .error (.time .durationNaN) ∧
      ((Errand.status.act emptyWindow "k").play
        (afterFailures emptyWindow "k" freshScene (.plain .system (some "bad")) 1)).1 matches
          .ok (.status .closed) := by
  decide +kernel

end Breaker

end KeyedBreaker
