import KeyedBreaker.Breaker.Control
import KeyedBreaker.Proofs.Breaker.Window
import KeyedBreaker.Proofs.Calendar.Seconds
import KeyedBreaker.Proofs.Record.Dated

namespace KeyedBreaker

open Act Breaker

namespace Scene

def timed (t : Instant) (s : Scene) : Scene := { s with now := t }

@[simp] theorem timed_now (t : Instant) (s : Scene) : (s.timed t).now = t := rfl

theorem Quiet.timed {s : Scene} (h : s.Quiet) (t : Instant) : (s.timed t).Quiet := h

end Scene

namespace Record

variable {c : Config} {t t' u : Instant} {r : Record} {d : Duration} {x : Binary64}

def BreakOver (t : Instant) (r : Record) : Prop := ∀ u, r.closeAt = some u → t.reaches u = .ok true

def BreakLeft (t : Instant) (d : Duration) (r : Record) : Prop :=
  0 < d.micros ∧ ∃ u, r.closeAt = some u ∧ u.since t = .ok d

theorem Dated.break_cases (h : r.Dated t) (ho : r.status = .open) :
    r.BreakOver t ∨ ∃ d, r.BreakLeft t d := by
  cases hu : r.closeAt with
  | none => exact .inl fun u hu' => by rw [hu] at hu'; cases hu'
  | some u =>
      obtain ⟨passed, hp⟩ := h u ((deadline_of_open ho).trans hu)
      cases passed with
      | true =>
          refine .inl fun u' hu' => ?_
          rw [hu] at hu'
          cases hu'
          exact hp
      | false =>
          obtain ⟨d, hd, hpos⟩ := Instant.since_of_reaches_eq_false hp
          exact .inr ⟨d, hpos, u, hu, hd⟩

theorem remaining_of_closeAt (ho : r.status = .open) (hu : r.closeAt = some u) :
    r.remaining t = (u.since t).map Duration.left := by
  rw [remaining, ho, hu]
  rfl

theorem BreakOver.remaining (h : r.BreakOver t) (ho : r.status = .open) :
    r.remaining t = .ok Binary64.zero := by
  cases hu : r.closeAt with
  | none => rw [Record.remaining, ho, hu]
  | some u =>
      obtain ⟨gap, hgap, hle⟩ := Instant.reaches_eq_true_iff.1 (h u hu)
      rw [remaining_of_closeAt ho hu, Instant.since, Instant.gap?_symm hgap]
      exact congrArg Except.ok (Duration.left_of_nonpos (Int.neg_nonpos_of_nonneg hle))

theorem BreakLeft.remaining (h : r.BreakLeft t d) (ho : r.status = .open) :
    r.remaining t = .ok d.left := by
  obtain ⟨-, u, hu, hd⟩ := h
  rw [remaining_of_closeAt ho hu, hd]
  rfl

theorem BreakLeft.reaches (h : r.BreakLeft t d) :
    ∃ u, r.closeAt = some u ∧ t.reaches u = .ok false := by
  obtain ⟨hpos, u, hu, hd⟩ := h
  refine ⟨u, hu, Instant.reaches_eq_false_iff.2 ⟨-d.micros, ?_, by omega⟩⟩
  exact Instant.gap?_symm (Instant.gap?_of_since hd)

theorem BreakOver.due (h : r.BreakOver t) (ho : r.status = .open) :
    Record.due c r.status t r = .ok (some .halfOpen) := by
  rw [ho, Record.due]
  cases hu : r.closeAt with
  | none => rfl
  | some u =>
      dsimp only
      rw [h u hu]
      rfl

theorem remaining_eq_zero_iff (h : r.Dated t) (ho : r.status = .open) (hx : r.remaining t = .ok x) :
    x = Binary64.zero ↔ r.BreakOver t := by
  refine ⟨fun hzero => ?_, fun hover => ?_⟩
  · refine (h.break_cases ho).resolve_right ?_
    rintro ⟨d, hd⟩
    rw [hd.remaining ho] at hx
    have hleft : d.left = Binary64.zero := (Except.ok.inj hx).trans hzero
    exact absurd (Duration.left_eq_zero_iff.1 hleft) (Int.not_le.2 hd.1)
  · rw [hover.remaining ho] at hx
    exact (Except.ok.inj hx).symm

theorem zero_le_remaining (hx : r.remaining t = .ok x) : Binary64.zero ≤ x := by
  unfold remaining at hx
  split at hx
  · rename_i u _ _
    cases hd : u.since t with
    | error e => rw [hd] at hx; cases hx
    | ok d =>
        rw [hd] at hx
        obtain rfl : d.left = x := Except.ok.inj hx
        exact d.zero_le_left
  · rw [← Except.ok.inj hx]
    exact Binary64.zero_le_zero

theorem remaining_antitone (ht : t'.reaches t = .ok true) (hx : r.remaining t = .ok x) :
    ∃ x', r.remaining t' = .ok x' ∧ x' ≤ x := by
  unfold remaining at hx ⊢
  split at hx
  · rename_i u _ _
    cases hd : u.since t with
    | error e => rw [hd] at hx; cases hx
    | ok d =>
        rw [hd] at hx
        obtain rfl : d.left = x := Except.ok.inj hx
        obtain ⟨gap, hgap, hle⟩ := Instant.reaches_eq_true_iff.1 ht
        have hleft := Instant.gap?_trans (Instant.gap?_of_since hd) (Instant.gap?_symm hgap)
        rw [Instant.since, hleft]
        refine ⟨_, rfl, Duration.left_mono ?_⟩
        change d.micros + -gap ≤ d.micros
        omega
  · rw [← Except.ok.inj hx]
    exact ⟨_, rfl, Binary64.zero_le_zero⟩

end Record

namespace Visit

/-- A call of this breaker at this time. -/
structure At (v : Visit) (b : Breaker) (t : Instant) : Prop where
  breaker : v.breaker = b
  before : v.before = Scene.timed t

/-- The call makes the circuit half-open. -/
def LeavesOpen (v : Visit) (key : String) (s : Scene) : Prop :=
  ∃ e, (v.entry key s).2.store.lookup key = .ok (some e) ∧ e.status = .halfOpen

/-- The call makes the circuit half-open, and its function starts as a probe. -/
structure Probes (v : Visit) (key : String) (s : Scene) : Prop where
  leaves : v.LeavesOpen key s
  running : ∃ o, (v.entry key s).1 = .ok (.running o) ∧ o.status = .halfOpen
  started : (v.entry key s).2.starts = key :: s.starts

/-- The call is turned away for so many seconds: no function starts, and the circuit stays open. -/
structure TurnedAway (v : Visit) (key : String) (s : Scene) (r : Record) (x : Binary64) : Prop where
  starts : (v.run key s).2.starts = s.starts
  stays : (v.run key s).2.store.lookup key = .ok (some r.next)
  result : v.breaker.Polite → (v.run key s).1 = .error (.circuitOpen key x)

/-- What is answered at the time of a call tells how it comes out. -/
structure Foretold (v : Visit) (key : String) (s : Scene) (r : Record) (x : Binary64) : Prop where
  leaves : x = Binary64.zero ↔ v.LeavesOpen key s
  probes : v.breaker.Polite → (x = Binary64.zero ↔ v.Probes key s)
  turnedAway : x ≠ Binary64.zero → v.TurnedAway key s r x

variable {v : Visit} {b : Breaker} {key : String} {s : Scene} {r : Record} {t t' u : Instant}
  {d : Duration} {x : Binary64}

section

variable (hv : v.At b t) (hq : s.Quiet) (hr : s.store.lookup key = .ok (some r))
  (ho : r.status = .open)
include hv hq hr ho

theorem turnedAway_of_left (hd : r.BreakLeft t d) :
    v.TurnedAway key s r d.left ∧ ¬ v.LeavesOpen key s := by
  obtain ⟨u, hu, ht⟩ := hd.reaches
  have hnow : (v.before s).now = t := by
    rw [hv.before]
    rfl
  have hshut : Shut (v.before s).now r := .inr ⟨ho, u, hu, hnow.symm ▸ ht⟩
  have hplay : (v.breaker.enterCall key {}).play (v.before s) = v.entry key s := rfl
  rw [hv.before] at hplay hshut
  obtain ⟨hl, f, hf, hy⟩ := (entered_of_play (hq.timed t) hr hplay).turned_away hshut
  have hrun : v.run key s = (.error f, (v.entry key s).2) := by
    rw [run, show v.entry key s = (.error f, (v.entry key s).2) from Prod.ext hf rfl]
  have hlookup : (v.entry key s).2.store.lookup key = .ok (some r.next) := hl.store.lookup hr
  refine ⟨⟨?_, ?_, fun hb => ?_⟩, ?_⟩
  · rw [hrun]
    exact hl.starts
  · rw [hrun]
    exact hlookup
  · rw [hrun, hy.of_polite hb, reason, ho, Scene.timed_now, hd.remaining ho]
  · rintro ⟨e, he, hstatus⟩
    rw [hlookup] at he
    cases he
    exact absurd (ho.symm.trans hstatus) (by decide)

/-- Once it is over a call makes the circuit half-open, and its function starts, if no listener gets in
the way. -/
theorem probes_of_over (h : r.BreakOver t) :
    v.LeavesOpen key s ∧ (v.breaker.Polite → v.Probes key s) := by
  let e : Record := { r.clearCounters with status := .halfOpen, previousStatus := some r.status }
  have hchange : v.breaker.change t r = .ok (some (.halfOpen, e)) := change_of_due_some (h.due ho) rfl
  obtain ⟨out, s₁, hbegin, hbegun⟩ := v.breaker.begin_begun (hq.timed t) hr
  have hentry : v.entry key s = v.breaker.goOn key {} out s₁ := by
    rw [entry, hv.before]
    exact play_enterCall {} hbegin
  cases hbegun with
  | unloaded hl _ => cases hl
  | unchanged hl hc _ =>
      cases hl
      exact absurd (hchange.symm.trans hc) (by simp)
  | unannounced hl hc _ hn hleads =>
      cases hl
      cases hchange.symm.trans hc
      refine ⟨⟨e.next, ?_, rfl⟩, fun hb => absurd hb hn⟩
      rw [hentry]
      exact hleads.store.lookup hr
  | begun ha hleads =>
      cases ha with
      | loaded hl hc =>
          cases hl
          cases hchange.symm.trans hc
      | changed hl hc =>
          cases hl
          cases hchange.symm.trans hc
          let o := v.breaker.opening key t s.monotonic e.next
          have hrunning : v.entry key s = (.ok (.running o), s₁.seeing [.started key]) := hentry
          have hleaves : v.LeavesOpen key s := by
            refine ⟨e.next, ?_, rfl⟩
            rw [hrunning]
            exact hleads.store.lookup hr
          refine ⟨hleaves, fun _ => ⟨hleaves, ⟨o, by rw [hrunning], rfl⟩, ?_⟩⟩
          rw [hrunning]
          exact congrArg (key :: ·) hleads.starts

/-- What is answered at the time of a call tells how it comes out. -/
theorem foretold (ht : r.Dated t) (hx : r.remaining t = .ok x) : v.Foretold key s r x := by
  rcases ht.break_cases ho with hover | ⟨d, hleft⟩
  · obtain ⟨hleaves, hprobes⟩ := probes_of_over hv hq hr ho hover
    have hzero := (Record.remaining_eq_zero_iff ht ho hx).2 hover
    exact ⟨iff_of_true hzero hleaves, fun hb => iff_of_true hzero (hprobes hb),
      fun hne => absurd hzero hne⟩
  · obtain ⟨haway, hleaves⟩ := turnedAway_of_left hv hq hr ho hleft
    obtain rfl : d.left = x := Except.ok.inj ((hleft.remaining ho).symm.trans hx)
    have hne : d.left ≠ Binary64.zero :=
      fun h => absurd (Duration.left_eq_zero_iff.1 h) (Int.not_le.2 hleft.1)
    exact ⟨iff_of_false hne hleaves, fun _ => iff_of_false hne fun h => hleaves h.leaves,
      fun _ => haway⟩

end

theorem play_resetIn (hq : s.Quiet) (hr : s.store.lookup key = .ok (some r)) :
    ((b.resetIn key).play s).1 = (r.remaining s.now).mapError .time := by
  obtain ⟨s₁, hload, hl⟩ := b.load_leads hq key
  rw [hr] at hload
  rw [Breaker.resetIn, play_bind_ok s hload, play_bind_ok s₁ (play_now s₁), play_ofTime, hl.now]

/-- A breaker answers truthfully how long an open circuit turns calls away. The answer is never negative
and does not grow with time. It is zero just when a call would be let through, and otherwise it is what a
call that is turned away is told. Below 2³³ seconds the clock that is set on by the answer shows exactly
the end of the break; a call is let through then, and is turned away at every earlier time. -/
theorem resetIn_truthful (hq : s.Quiet) (hr : s.store.lookup key = .ok (some r)) (ho : r.status = .open)
    (ht : r.Dated t) :
    ∃ x, ((b.resetIn key).play (s.timed t)).1 = .ok x ∧ Binary64.zero ≤ x ∧
      (∀ v : Visit, v.At b t → v.Foretold key s r x) ∧
      (∀ t', t'.reaches t = .ok true →
        ∃ x', ((b.resetIn key).play (s.timed t')).1 = .ok x' ∧ x' ≤ x) ∧
      ∀ u d, r.closeAt = some u → u.since t = .ok d → x ≠ Binary64.zero →
        d.micros < 2 ^ 33 * 10 ^ 6 → ∀ t₁, t₁.offset = t.offset → Instant.gap? t₁ u = some 0 →
          t.addSeconds x = .ok t₁ ∧
          (∀ v : Visit, v.At b t₁ → v.LeavesOpen key s ∧ (b.Polite → v.Probes key s)) ∧
          ∀ t', t'.reaches t₁ = .ok false →
            ∀ v : Visit, v.At b t' → ∃ y, y ≠ Binary64.zero ∧ v.TurnedAway key s r y := by
  obtain ⟨x, hx⟩ := ht.remaining
  have hplay : ∀ {t'}, ((b.resetIn key).play (s.timed t')).1 = (r.remaining t').mapError .time :=
    play_resetIn (hq.timed _) hr
  refine ⟨x, by rw [hplay, hx]; rfl, Record.zero_le_remaining hx, fun v hv => foretold hv hq hr ho ht hx,
    fun t' hlater => ?_, fun u d hu hd hne hlt t₁ hoffset hend => ⟨?_, fun v hv => ?_, ?_⟩⟩
  · obtain ⟨x', hx', hle⟩ := Record.remaining_antitone hlater hx
    exact ⟨x', by rw [hplay, hx']; rfl, hle⟩
  · rw [Record.remaining_of_closeAt ho hu, hd] at hx
    obtain rfl : d.left = x := Except.ok.inj hx
    have hpos : 0 < d.micros := Int.not_le.1 fun h => hne (Duration.left_of_nonpos h)
    exact Instant.addSeconds_left hd hpos hlt hoffset hend
  · have hover : r.BreakOver t₁ := by
      intro u' hu'
      cases hu.symm.trans hu'
      exact Instant.reaches_eq_true_iff.2 ⟨0, hend, Int.le_refl 0⟩
    have hprobes := probes_of_over hv hq hr ho hover
    rwa [hv.breaker] at hprobes
  · intro t' hearly v hv
    have hreach : u.reaches t₁ = .ok true :=
      Instant.reaches_eq_true_iff.2 ⟨0, Instant.gap?_symm hend, Int.le_refl 0⟩
    obtain ⟨d', hd', hpos⟩ :=
      Instant.since_of_reaches_eq_false (Instant.reaches_eq_false_trans hearly hreach)
    refine ⟨d'.left, fun h => ?_, (turnedAway_of_left hv hq hr ho ⟨hpos, u, hu, hd'⟩).1⟩
    exact absurd (Duration.left_eq_zero_iff.1 h) (Int.not_le.2 hpos)

def breakEnd : Instant := ⟨6000000, none, by decide⟩

def sixSeconds : Record where
  status := .open
  closeAt := some breakEnd
  version := 1

def breakScene : Scene where
  now := Schedule.beginning
  store := .memory [("k", sixSeconds)]

theorem resetIn_truthful_breakScene :
    ((Breaker.resetIn {} "k").play breakScene).1 = .ok (Binary64.ofInt 6) ∧
      Schedule.beginning.addSeconds (Binary64.ofInt 6) = .ok breakEnd ∧
      ∀ v : Visit, v.At {} breakEnd → v.Probes "k" breakScene := by
  have hremaining : sixSeconds.remaining Schedule.beginning = .ok (Binary64.ofInt 6) := by
    decide +kernel
  have hanswer : ((Breaker.resetIn {} "k").play breakScene).1 = .ok (Binary64.ofInt 6) := by
    rw [play_resetIn (fun _ => rfl) rfl]
    exact congrArg (Except.mapError Failure.time) hremaining
  have hdated : sixSeconds.Dated Schedule.beginning := by
    intro u hu
    cases hu
    exact ⟨false, by decide +kernel⟩
  have hlookup : breakScene.store.lookup "k" = .ok (some sixSeconds) := rfl
  obtain ⟨x, hx, -, -, -, hwait⟩ := resetIn_truthful (b := {}) (fun _ => rfl) hlookup rfl hdated
  obtain rfl : Binary64.ofInt 6 = x := Except.ok.inj (hanswer.symm.trans hx)
  obtain ⟨hadd, hcalls, -⟩ := hwait breakEnd ⟨6000000⟩ rfl (by decide +kernel) (by decide +kernel)
    (by decide) breakEnd rfl (by decide +kernel)
  exact ⟨hanswer, hadd, fun v hv => (hcalls v hv).2 (by simp [Polite])⟩

def abortingListener : Breaker where
  listeners := [.recording (some (.plain .abort none)) [.state]]

/-- A listener can get in the way of the call that is let through: the circuit is made half-open, and
nothing starts. -/
theorem breakOver_interrupted :
    abortingListener.config.check = .ok () ∧
      ((abortingListener.resetIn "k").play (breakScene.timed breakEnd)).1.toOption =
        some Binary64.zero ∧
      (Visit.run "k" { breaker := abortingListener, result := .ok .null }
        (breakScene.timed breakEnd)).2.starts = [] := by
  decide +kernel

end Visit

end KeyedBreaker
