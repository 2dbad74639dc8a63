import KeyedBreaker.Proofs.Breaker.Call
import KeyedBreaker.Proofs.Schedule.Turn
import KeyedBreaker.Throng.Basic

namespace KeyedBreaker

open Act Breaker

def Operation.demand : Operation → Demand
  | .call b key .. => .call b key
  | .force b key target attempt => .force b key target attempt

def Breaker.Stage.standing : Except Failure Stage → Standing
  | .ok (.running o) => .working o
  | .ok (.ended v) => .over (.ok (.value v))
  | .error f => .over (.error f)

/-- A party is as far as a task with the same operation. -/
inductive Party.Follows : Party → Stand → Prop
  | outside {o place fs worked} : place = .requesting o ∨ place = .queued o ∨ place = .acting o →
      Follows ⟨o.demand, .outside, worked⟩ ⟨place, fs⟩
  | working {f place fs worked} : place = .working ∨ (∃ gate, place = .atGate gate) →
      Follows ⟨.call f.breaker f.key, .working f.opening, worked⟩ ⟨place, f :: fs⟩
  | ended {d result fs worked} : Follows ⟨d, .over result, worked⟩ ⟨.returning result, fs⟩

namespace Party.Follows

variable {p : Party} {place : Place} {op : Operation} {fs : List Frame}

theorem eq_of_operation (h : p.Follows ⟨place, fs⟩)
    (hplace : place = .requesting op ∨ place = .queued op ∨ place = .acting op) :
    ∃ worked, p = ⟨op.demand, .outside, worked⟩ := by
  cases h with
  | outside h =>
      rcases hplace with rfl | rfl | rfl <;> rcases h with h | h | h <;> cases h <;> exact ⟨_, rfl⟩
  | working h =>
      obtain rfl | ⟨gate, rfl⟩ := h <;> rcases hplace with h | h | h <;> cases h
  | ended => rcases hplace with h | h | h <;> cases h

theorem eq_of_working {f : Frame} (h : p.Follows ⟨place, f :: fs⟩)
    (hplace : place = .working ∨ ∃ gate, place = .atGate gate) :
    ∃ worked, p = ⟨.call f.breaker f.key, .working f.opening, worked⟩ := by
  cases h with
  | outside h => rcases hplace with rfl | ⟨gate, rfl⟩ <;> rcases h with h | h | h <;> cases h
  | working => exact ⟨_, rfl⟩
  | ended => rcases hplace with h | ⟨gate, h⟩ <;> cases h

theorem ne_starting (h : p.Follows ⟨place, fs⟩) (step : Step) : place ≠ .starting step := by
  rintro rfl
  cases h with
  | outside h => rcases h with h | h | h <;> cases h
  | working h => obtain h | ⟨gate, h⟩ := h <;> cases h

end Party.Follows

namespace Breaker

variable {b : Breaker} {key : String} {target : Status} {attempt : Nat} {s s' : Scene} {f : Failure}

theorem play_enforce_ok {previous : Status} {r : Record}
    (h : (b.overwriteOnce key target).play s = (.ok (previous, r), s')) :
    (b.enforce key target attempt).play s =
      (((b.confirm key target previous).play s').1.map fun _ => .answered (.record (some r)),
        ((b.confirm key target previous).play s').2) := by
  rw [enforce, play_bind_ok s (play_observing s _), h]
  dsimp only
  rw [play_bind]
  rcases (b.confirm key target previous).play s' with ⟨_ | _, s''⟩ <;> rfl

theorem play_enforce_again (h : (b.overwriteOnce key target).play s = (.error f, s'))
    (hf : f.isA .stale = true) (hattempt : attempt < b.policy.attempts) :
    (b.enforce key target attempt).play s =
      (.ok .again, ((b.backOff key target attempt).play s').2) := by
  rw [enforce, play_bind_ok s (play_observing s _), h]
  dsimp only
  rw [hf, Bool.true_and, if_pos (decide_eq_true hattempt)]
  rfl

theorem play_enforce_error (h : (b.overwriteOnce key target).play s = (.error f, s'))
    (hf : f.isA .stale = true → b.policy.attempts ≤ attempt) :
    (b.enforce key target attempt).play s = (.error f, s') := by
  rw [enforce, play_bind_ok s (play_observing s _), h]
  dsimp only
  rw [if_neg]
  · rfl
  · rw [Bool.and_eq_true, decide_eq_true_eq]
    exact fun ⟨hstale, hlt⟩ => absurd hlt (Int.not_lt.2 (hf hstale))

end Breaker

theorem Party.stop_standing (p : Party) (standing : Standing) (halt : Halt Upshot) :
    ({ p with standing } : Party).stop halt = p.stop halt := by
  rcases halt with (f | (o | - | x)) | next <;> rfl

namespace Throng

variable {s : Throng} {i : Nat} {p : Party} {a : Act Upshot} {c : Cue}

theorem after_append (ms ms' : List Move) : s.after (ms ++ ms') = (s.after ms).after ms' :=
  List.foldl_append

theorem move_of_deed? (hi : s.parties[i]? = some p) (ha : s.deed? p c = some a)
    (ts : List Instant) : s.move (.go i c ts) = s.goOn i p a ts := by
  rw [move, hi]
  dsimp only
  rw [ha]

/-- While the clock stands still and listeners come back at once, a party that goes on comes to the
end of what it does. -/
theorem exists_after_goOn (hi : s.parties[i]? = some p) (a : Act Upshot) :
    ∃ ms, (s.goOn i p a []).after ms =
      ⟨(a.play s.scene).2, s.parties.set i (p.stop (.ended (a.play s.scene).1))⟩ := by
  induction a generalizing s p with
  | done result => exact ⟨[], rfl⟩
  | look next ih => exact ih s.scene hi
  | change f next ih => exact ih (s := { s with scene := f s.scene }) hi
  | say e next ih =>
      exact ih (s := { s with scene := { s.scene with events := e :: s.scene.events } }) hi
  | clock next ih => exact ih s.scene.now hi
  | await next ih =>
      let waiting : Party := { p with standing := .waiting next }
      let s₁ : Throng := { s with parties := s.parties.set i waiting }
      have hi₁ : s₁.parties[i]? = some waiting :=
        List.getElem?_set_self (List.getElem?_eq_some_iff.1 hi).1
      obtain ⟨ms, hms⟩ := ih (.ok ()) hi₁
      refine ⟨.go i (.answer (.ok ())) [] :: ms, ?_⟩
      change (s₁.move _).after ms = _
      rw [move_of_deed? hi₁ rfl, hms, List.set_set, Party.stop_standing]
      rfl

theorem exists_after_cue (hi : s.parties[i]? = some p) (ha : s.deed? p c = some a) :
    ∃ ms, s.after ms =
      ⟨(a.play s.scene).2, s.parties.set i (p.stop (.ended (a.play s.scene).1))⟩ := by
  obtain ⟨ms, h⟩ := exists_after_goOn hi a
  refine ⟨.go i c [] :: ms, ?_⟩
  rw [← h, ← move_of_deed? hi ha []]
  rfl

/-- A call goes on to where its function is running or where it ends. The clocks may move once its
function has started. -/
theorem exists_after_enterCall {b : Breaker} {key : String} {w : Work} {inner : List Step}
    {fs : List Frame} {out : Except Failure Stage} {σ' : Scene} (hi : s.parties[i]? = some p)
    (hp : p.Follows ⟨.acting (.call b key w inner), fs⟩) (hfree : s.isFree key = true)
    (h : (b.enterCall key w).play s.scene = (out, σ')) :
    ∃ ms worked, s.after ms =
      ⟨σ', s.parties.set i ⟨.call b key, Stage.standing out, worked⟩⟩ := by
  obtain ⟨worked, rfl⟩ := hp.eq_of_operation (.inr (.inr rfl))
  have ha : s.deed? ⟨.call b key, .outside, worked⟩ .enter = some (Demand.call b key).begin :=
    if_pos hfree
  obtain ⟨ms, hms⟩ := exists_after_cue hi ha
  rw [Demand.begin, play_map] at hms
  rcases hbegin : (b.begin key).play s.scene with ⟨f₀ | ⟨o, f | ⟨⟩⟩, σ⟩ <;>
    rw [play_enterCall {} hbegin] at hms <;> rw [play_enterCall w hbegin] at h
  · cases h
    exact ⟨ms, worked, hms⟩
  · rw [Breaker.goOn, play_map] at h hms
    cases h
    refine ⟨ms, worked, ?_⟩
    rw [hms]
    rcases ((b.finish key o (.error f)).play σ).1 with f' | v <;> rfl
  · let running : Party := ⟨.call b key, .working o, true⟩
    have hms' : s.after ms = ⟨σ.seeing [.started key], s.parties.set i running⟩ := hms
    obtain ⟨result, σ₁, hstart, hstarted⟩ := start_started w key σ
    rw [Breaker.goOn, hstart] at h
    -- The function of the party has been started before its clocks move.
    have hpass : s.after (ms ++ [.pass σ₁.now σ₁.monotonic]) = ⟨σ₁, s.parties.set i running⟩ := by
      rw [after_append, hms']
      obtain ⟨now, monotonic, store, faults, events⟩ := σ₁
      obtain ⟨rfl, rfl, rfl, -⟩ := hstarted
      rfl
    cases result with
    | ok =>
        cases h
        exact ⟨_, true, hpass⟩
    | error f =>
        have hi₁ : (s.after (ms ++ [.pass σ₁.now σ₁.monotonic])).parties[i]? = some running := by
          rw [hpass]
          exact List.getElem?_set_self (List.getElem?_eq_some_iff.1 hi).1
        obtain ⟨ms', hend⟩ := exists_after_cue hi₁ (c := .conclude (.error f)) rfl
        dsimp only at h
        rw [play_map] at h
        cases h
        refine ⟨ms ++ [.pass σ₁.now σ₁.monotonic] ++ ms', true, ?_⟩
        rw [after_append, hend, hpass, List.set_set, play_map]
        rcases ((b.conclude key o (.error f)).play σ₁).1 with f' | v <;> rfl

theorem exists_after_enforce {b : Breaker} {key : String} {target : Status} {attempt : Nat}
    {fs : List Frame} (hi : s.parties[i]? = some p)
    (hp : p.Follows ⟨.acting (.force b key target attempt), fs⟩) (hfree : s.isFree key = true) :
    ∃ ms worked, s.after ms = ⟨((b.enforce key target attempt).play s.scene).2, s.parties.set i
      (Party.stop ⟨.force b key target attempt, .outside, worked⟩
        (.ended ((b.enforce key target attempt).play s.scene).1))⟩ := by
  obtain ⟨worked, rfl⟩ := hp.eq_of_operation (.inr (.inr rfl))
  obtain ⟨ms, hms⟩ := exists_after_cue (c := .enter) hi (if_pos hfree)
  exact ⟨ms, worked, hms⟩

/-- What the turn of a task does for its operation, a party does that is as far. -/
theorem exists_after_turn {σ σ' : Scene} {st st' : Stand} (h : Turn σ st σ' st')
    (hscene : s.scene = σ) (hi : s.parties[i]? = some p) (hp : p.Follows st)
    (hfree : ∀ op, st.place = .acting op → s.isFree op.key = true)
    (hst : ∀ result, st.place ≠ .returning result) (hst' : ∀ step, st'.place ≠ .starting step) :
    ∃ ms p', s.after ms = ⟨σ', s.parties.set i p'⟩ ∧ p'.Follows st' := by
  subst hscene
  have hself : s.after [] = ⟨s.scene, s.parties.set i p⟩ := by
    obtain ⟨hlt, rfl⟩ := List.getElem?_eq_some_iff.1 hi
    rw [List.set_getElem_self]
    rfl
  cases h with
  | asks | plays | signals => exact absurd rfl (hp.ne_starting _)
  | waits =>
      obtain ⟨worked, rfl⟩ := hp.eq_of_operation (.inl rfl)
      exact ⟨[], _, hself, .outside (.inr (.inl rfl))⟩
  | enters =>
      obtain ⟨worked, rfl⟩ := hp.eq_of_operation (.inl rfl)
      exact ⟨[], _, hself, .outside (.inr (.inr rfl))⟩
  | wakes =>
      obtain ⟨worked, rfl⟩ := hp.eq_of_operation (.inr (.inl rfl))
      exact ⟨[], _, hself, .outside (.inr (.inr rfl))⟩
  | @leaves op fs =>
      obtain ⟨worked, rfl⟩ := hp.eq_of_operation (.inr (.inl rfl))
      have hquit : s.after [.quit i] =
          ⟨s.scene, s.parties.set i ⟨op.demand, .over (.error .cancellation), worked⟩⟩ := by
        change s.move (.quit i) = _
        rw [move, hi]
      exact ⟨_, _, hquit, .ended⟩
  | opens h =>
      obtain ⟨ms, worked, hms⟩ := exists_after_enterCall hi hp (hfree _ rfl) h
      exact ⟨ms, _, hms, .working (f := ⟨_, _, _, _, _, _⟩) (.inl rfl)⟩
  | ends h =>
      obtain ⟨ms, worked, hms⟩ := exists_after_enterCall hi hp (hfree _ rfl) h
      exact ⟨ms, _, hms, .ended⟩
  | breaks h =>
      obtain ⟨ms, worked, hms⟩ := exists_after_enterCall hi hp (hfree _ rfl) h
      exact ⟨ms, _, hms, .ended⟩
  | forces h =>
      obtain ⟨ms, worked, hms⟩ := exists_after_enforce hi hp (hfree _ rfl)
      rw [play_enforce_ok h] at hms
      refine ⟨ms, _, hms, ?_⟩
      rcases ((Breaker.confirm _ _ _ _).play _).1 with f | v <;> exact .ended
  | @retries _ b key target attempt _ _ h hf hattempt =>
      obtain ⟨ms, worked, hms⟩ := exists_after_enforce hi hp (hfree _ rfl)
      rw [play_enforce_again h hf hattempt] at hms
      exact ⟨ms, _, hms, .outside (o := .force b key target (attempt + 1)) (.inl rfl)⟩
  | fails h hf =>
      obtain ⟨ms, worked, hms⟩ := exists_after_enforce hi hp (hfree _ rfl)
      rw [play_enforce_error h hf] at hms
      exact ⟨ms, _, hms, .ended⟩
  | nests => exact absurd rfl (hst' _)
  | pauses =>
      obtain ⟨worked, rfl⟩ := hp.eq_of_working (.inl rfl)
      exact ⟨[], _, hself, .working (.inr ⟨_, rfl⟩)⟩
  | @concludes _ f fs result h =>
      obtain ⟨worked, rfl⟩ := hp.eq_of_working (h.imp And.left And.left)
      obtain ⟨ms, hms⟩ := exists_after_cue (c := .conclude result) hi rfl
      rw [play_map] at hms
      refine ⟨ms, _, hms, ?_⟩
      rcases ((f.breaker.conclude f.key f.opening result).play s.scene).1 with f' | v <;>
        exact .ended
  | finishes => exact absurd rfl (hst _)
  | resumes => exact absurd rfl (hst _)

end Throng

end KeyedBreaker
