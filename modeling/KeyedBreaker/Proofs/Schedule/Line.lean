import KeyedBreaker.Proofs.Breaker.Weathered
import KeyedBreaker.Proofs.Schedule.Faultless

namespace KeyedBreaker

inductive Spot where
  | lock (key : String)
  | gate (name : String)
  deriving DecidableEq

def Place.spot? : Place → Option Spot
  | .queued op => some (.lock op.key)
  | .atGate gate => some (.gate gate)
  | _ => none

/-- How often a task acts for a key: by the operation that has its lock, and by the calls whose
functions are running. -/
def Stand.occupies (key : String) (st : Stand) : Nat :=
  (match st.place with
    | .acting op => if op.key = key then 1 else 0
    | _ => 0) + st.frames.countP (·.key = key)

theorem Stand.occupies_ne_zero {st : Stand} {key : String} :
    st.occupies key ≠ 0 ↔
      (∃ op, st.place = .acting op ∧ op.key = key) ∨ ∃ f ∈ st.frames, f.key = key := by
  have hframes : st.frames.countP (·.key = key) ≠ 0 ↔ ∃ f ∈ st.frames, f.key = key := by
    rw [← Nat.pos_iff_ne_zero, List.countP_pos_iff]
    simp only [decide_eq_true_eq]
  rw [Stand.occupies, ← hframes]
  obtain ⟨place, frames⟩ := st
  cases place with
  | acting op =>
      simp only [Place.acting.injEq, exists_eq_left']
      split <;> simp_all
  | _ => simp

structure Line where
  ready : List Nat
  locks : String → Lock
  gates : String → Gate

namespace Line

variable (l : Line)

def queue : Spot → List Waiter
  | .lock key => (l.locks key).queue
  | .gate gate => (l.gates gate).queue

def setLock (key : String) (lock : Lock) : Line :=
  { l with locks := fun k => if k = key then lock else l.locks k }

def setGate (gate : String) (g : Gate) : Line :=
  { l with gates := fun k => if k = gate then g else l.gates k }

def setQueue (spot : Spot) (q : List Waiter) : Line :=
  match spot with
  | .lock key => l.setLock key { l.locks key with queue := q }
  | .gate gate => l.setGate gate { l.gates gate with queue := q }

def wake (woken : List Nat) : Line := { l with ready := l.ready ++ woken }

def unlock (key : String) : Line :=
  (l.setLock key (l.locks key).release.1).wake (l.locks key).release.2

def suspend (i : Nat) (state : WaiterState) : Line :=
  { l with ready := l.ready.tail ++ if state = .cancelled then [i] else [] }

def drop : Line := { l with ready := l.ready.tail }

end Line

/-- What a turn of a task does to the line, by where the task stands before and after. -/
inductive Shift (i : Nat) (sts : List Stand) (l : Line) : Stand → Line → Stand → Prop
  | still {st st'} : st.place.spot? = none → st'.place.spot? = none →
      (∀ key, st'.occupies key = st.occupies key) → Shift i sts l st l st'
  /-- The lock is free, or the task was woken to have it. -/
  | takes {st op fs} : st = ⟨.requesting op, fs⟩ ∧ (l.locks op.key).isFree = true ∨
        st = ⟨.queued op, fs⟩ ∧ Waiter.isCancelled i (l.locks op.key).queue = false →
      Shift i sts l st (l.setLock op.key ((l.locks op.key).take i)) ⟨.acting op, fs⟩
  | joins {st st' spot state} : st.place.spot? = none → st'.place.spot? = some spot →
      (∀ key, st'.occupies key = st.occupies key) → state ≠ .woken →
      Shift i sts l st ((l.setQueue spot (l.queue spot ++ [⟨i, state⟩])).suspend i state) st'
  | leaves {op fs result} : Shift i sts l ⟨.queued op, fs⟩
      ((l.setLock op.key ((l.locks op.key).leave i).1).wake ((l.locks op.key).leave i).2)
      ⟨.returning result, fs⟩
  | releases {st st' key} : st.place.spot? = none → st'.place.spot? = none →
      (∀ k, st.occupies k = st'.occupies k + if key = k then 1 else 0) →
      Shift i sts l st (l.unlock key) st'
  /-- The function of a call ends after it waited at a gate. -/
  | leavesGate {gate f fs result} : Shift i sts l ⟨.atGate gate, f :: fs⟩
      ((l.setQueue (.gate gate) (Waiter.leave i (l.queue (.gate gate)))).unlock f.key)
      ⟨.returning result, fs⟩
  | opensGate {step gate fs result} : Shift i sts l ⟨.starting step, fs⟩
      ((l.setGate gate (l.gates gate).release.1).wake (l.gates gate).release.2)
      ⟨.returning result, fs⟩
  /-- Another task is cancelled where it waits. -/
  | cancels {step j spot fs result} : Waiter.isPending j (l.queue spot) = true →
      Shift i sts l ⟨.starting step, fs⟩
        ((l.setQueue spot (Waiter.cancel j (l.queue spot))).wake [j]) ⟨.returning result, fs⟩
  | drops {st st'} : st.Halted ∧ st' = st ∨ (∃ result, st = ⟨.returning result, []⟩) ∧ st' = ⟨.done, []⟩ →
      Shift i sts l st l.drop st'

namespace Store

theorem lookup_of_hasLocks {st : Store} (h : st.hasLocks = true) (key : String) :
    ∃ x, st.lookup key = .ok x := by
  cases st with
  | memory writes => exact ⟨_, rfl⟩
  | shared => cases h

end Store

open Act

namespace Breaker

variable {b : Breaker} {key : String} {σ σ' : Scene}

theorem hasLocks_enterCall {w : Work} {out : Except Failure Stage}
    (h : (b.enterCall key w).play σ = (out, σ')) : σ'.store.hasLocks = σ.store.hasLocks := by
  obtain ⟨-, rs, hg, -⟩ := (called_of_play h).grows
  exact hg.hasLocks

theorem hasLocks_overwriteOnce {target : Status} {out : Except Failure (Status × Record)}
    (h : (b.overwriteOnce key target).play σ = (out, σ')) :
    σ'.store.hasLocks = σ.store.hasLocks := by
  obtain ⟨rs, hw, -⟩ := forced_of_play h
  exact hw.store.hasLocks

theorem hasLocks_conclude {o : Opening} {result out : Except Failure Json}
    (h : (b.conclude key o result).play σ = (out, σ')) : σ'.store.hasLocks = σ.store.hasLocks := by
  obtain ⟨out', s', rs, ts, hp, hw, -⟩ := b.conclude_weathers key o result σ
  rw [h] at hp
  cases hp
  exact hw.store.hasLocks

end Breaker

namespace Schedule

variable {s : Schedule} {i : Nat} {t : Task} {fs : List Frame}

def line (s : Schedule) : Line := ⟨s.ready, s.locks, s.gates⟩

def Shifts (s : Schedule) (i : Nat) (st : Stand) (s' : Schedule) : Prop :=
  ∃ st', Shift i s.stands s.line st s'.line st' ∧ s'.stands = s.stands.set i st'

theorem line_unlock (h : s.scene.store.hasLocks = true) (key : String) :
    (s.unlock key).line = s.line.unlock key := by
  unfold unlock
  rw [if_pos h]
  rfl

theorem line_suspend (t : Task) (i : Nat) (p : Place) :
    (s.suspend t i p).line = s.line.suspend i (waiter t i).state := by
  unfold suspend waiter Line.suspend
  cases t.cancelRequested <;> rfl

theorem state_waiter (t : Task) (i : Nat) : (waiter t i).state ≠ .woken := by
  unfold waiter
  cases t.cancelRequested with
  | false => exact fun h => by cases h
  | true => exact fun h => by cases h

theorem still_shifts {s' : Schedule} {st st' : Stand} (hline : s'.line = s.line)
    (hstands : s'.stands = s.stands.set i st') (hst : st.place.spot? = none)
    (hst' : st'.place.spot? = none) (hkey : ∀ key, st'.occupies key = st.occupies key) :
    s.Shifts i st s' := by
  refine ⟨st', ?_, hstands⟩
  rw [hline]
  exact .still hst hst' hkey

theorem unlock_shifts {s₁ s' : Schedule} {st st' : Stand} {key : String} (hline : s₁.line = s.line)
    (hm : s₁.scene.store.hasLocks = true) (hs' : s'.line = (s₁.unlock key).line)
    (hstands : s'.stands = s.stands.set i st') (hst : st.place.spot? = none)
    (hst' : st'.place.spot? = none)
    (hkey : ∀ k, st.occupies k = st'.occupies k + if key = k then 1 else 0) :
    s.Shifts i st s' := by
  refine ⟨st', ?_, hstands⟩
  rw [hs', line_unlock hm, hline]
  exact .releases hst hst' hkey

theorem cancel_shifts {step : Step} {j : Nat} {result : Except Failure Answer}
    (hi : s.stands[i]? = some ⟨.starting step, fs⟩) :
    s.Shifts i ⟨.starting step, fs⟩ ((s.cancel j).2.returnWith i result) := by
  have hstands : ((s.cancel j).2.returnWith i result).stands =
      s.stands.set i ⟨.returning result, fs⟩ := by
    obtain ⟨hs, -⟩ := s.cancel_unseen j
    rw [returnWith, stands_goTo (hs ▸ hi), hs]
  have hstill : (s.cancel j).2.line = s.line →
      s.Shifts i ⟨.starting step, fs⟩ ((s.cancel j).2.returnWith i result) :=
    fun h => still_shifts h hstands rfl rfl fun _ => rfl
  have hspot : ∀ spot, Waiter.isPending j (s.line.queue spot) = true →
      (s.cancel j).2.line =
        (s.line.setQueue spot (Waiter.cancel j (s.line.queue spot))).wake [j] →
      s.Shifts i ⟨.starting step, fs⟩ ((s.cancel j).2.returnWith i result) := by
    intro spot hp h
    refine ⟨_, ?_, hstands⟩
    change Shift _ _ _ _ (s.cancel j).2.line _
    rw [h]
    exact .cancels hp
  generalize hcancel : s.cancel j = c at hstill hspot ⊢
  unfold cancel at hcancel
  split at hcancel
  · subst hcancel
    exact hstill rfl
  · split at hcancel
    · subst hcancel
      exact hstill rfl
    · rename_i op _
      dsimp only at hcancel
      split at hcancel <;> subst hcancel
      · exact hspot (.lock op.key) ‹_› rfl
      · exact hstill rfl
    · rename_i gate _
      dsimp only at hcancel
      split at hcancel <;> subst hcancel
      · exact hspot (.gate gate) ‹_› rfl
      · exact hstill rfl
    · subst hcancel
      exact hstill rfl

theorem start_shifts {step : Step} (hi : s.stands[i]? = some ⟨.starting step, fs⟩) :
    s.Shifts i ⟨.starting step, fs⟩ (s.start i step) := by
  have hplay : ∀ a, step.act? = some a →
      s.Shifts i ⟨.starting step, fs⟩ ((s.play a).2.returnWith i (s.play a).1) :=
    fun a _ => still_shifts rfl (stands_goTo hi) rfl rfl fun _ => rfl
  cases step with
  | call b key w inner => exact still_shifts rfl (stands_goTo hi) rfl rfl fun _ => rfl
  | force b key target => exact still_shifts rfl (stands_goTo hi) rfl rfl fun _ => rfl
  | release gate => exact ⟨_, .opensGate, stands_goTo hi⟩
  | cancel j => exact cancel_shifts hi
  | _ =>
      have h := hplay _ rfl
      exact h

theorem begin_shifts {step : Step} (hi : s.stands[i]? = some ⟨.starting step, fs⟩) :
    s.Shifts i ⟨.starting step, fs⟩ (s.begin t i step) := by
  unfold begin
  split
  · exact still_shifts rfl (giveUp_stands hi) rfl rfl fun _ => rfl
  · exact start_shifts hi

theorem request_shifts {op : Operation} (hm : s.scene.store.hasLocks = true)
    (hi : s.stands[i]? = some ⟨.requesting op, fs⟩) :
    s.Shifts i ⟨.requesting op, fs⟩ (s.request t i op) := by
  unfold request
  dsimp only
  rw [hm]
  split
  · contradiction
  · split
    · exact ⟨_, .takes (.inl ⟨rfl, ‹_›⟩), stands_goTo hi⟩
    · refine ⟨_, ?_, suspend_stands hi⟩
      rw [line_suspend]
      have hjoins : Shift i s.stands s.line ⟨.requesting op, fs⟩
          ((s.line.setQueue (.lock op.key) (s.line.queue (.lock op.key) ++
            [⟨i, (waiter t i).state⟩])).suspend i (waiter t i).state) ⟨.queued op, fs⟩ :=
        .joins rfl rfl (fun _ => rfl) (state_waiter t i)
      exact hjoins

theorem leaveQueue_shifts {op : Operation} (hi : s.stands[i]? = some ⟨.queued op, fs⟩) :
    s.Shifts i ⟨.queued op, fs⟩ (s.leaveQueue t i op) := by
  unfold leaveQueue
  dsimp only
  split
  · exact ⟨_, .leaves, giveUp_stands hi⟩
  · rename_i h
    refine ⟨_, .takes (.inr ⟨rfl, ?_⟩), stands_goTo hi⟩
    rw [Bool.or_eq_true, not_or] at h
    exact Bool.eq_false_iff.2 h.2

theorem occupies_acting (op : Operation) (fs : List Frame) (key : String) :
    (⟨.acting op, fs⟩ : Stand).occupies key =
      fs.countP (·.key = key) + if op.key = key then 1 else 0 := by
  rw [Stand.occupies, Nat.add_comm]

theorem acted_shifts {op : Operation} {p : Place} {σ : Scene} (σ' : Scene)
    (hi : s.stands[i]? = some ⟨.acting op, fs⟩) (hm : σ.store.hasLocks = true)
    (hp : p.spot? = none) (hp' : ∀ key, (⟨p, fs⟩ : Stand).occupies key = fs.countP (·.key = key)) :
    s.Shifts i ⟨.acting op, fs⟩
      (({ ({ s with scene := σ } : Schedule).unlock op.key with scene := σ' } : Schedule).goTo i p) := by
  let s₁ : Schedule := { s with scene := σ }
  have hu : (s₁.unlock op.key).stands = s.stands := stands_unlock op.key
  have hline : s₁.line = s.line := rfl
  have hstands : (({ s₁.unlock op.key with scene := σ' } : Schedule).goTo i p).stands =
      s.stands.set i ⟨p, fs⟩ := by
    rw [stands_goTo (s := { s₁.unlock op.key with scene := σ' }) (hu ▸ hi)]
    exact congrArg (List.set · i _) hu
  refine unlock_shifts hline hm rfl hstands rfl hp fun key => ?_
  rw [occupies_acting, hp']

theorem act_shifts {op : Operation} (hm : s.scene.store.hasLocks = true)
    (hi : s.stands[i]? = some ⟨.acting op, fs⟩) :
    s.Shifts i ⟨.acting op, fs⟩ (s.act i op) := by
  have hreturns : ∀ {σ : Scene} (result : Except Failure Answer), σ.store.hasLocks = true →
      s.Shifts i ⟨.acting op, fs⟩
        ((({ s with scene := σ } : Schedule).unlock op.key).returnWith i result) := by
    intro σ result hσ
    have h := acted_shifts (({ s with scene := σ } : Schedule).unlock op.key).scene hi hσ
      (p := .returning result) rfl fun _ => Nat.zero_add _
    exact h
  cases op with
  | call b key w inner =>
      unfold act
      dsimp only
      cases hp : (b.enterCall key w).play s.scene with
      | mk out σ =>
          have hσ := (Breaker.hasLocks_enterCall hp).trans hm
          rw [play_eq hp]
          cases out with
          | error f => exact hreturns _ hσ
          | ok stage =>
              cases stage with
              | ended v => exact hreturns _ hσ
              | running o =>
                  refine still_shifts rfl (stands_modifyTask (s := { s with scene := σ })
                    (g := fun st => ⟨.working, ⟨b, key, o, inner, w.gate, w.result⟩ :: st.frames⟩)
                    (fun _ => rfl) hi) rfl rfl fun k => ?_
                  rw [occupies_acting, Stand.occupies, List.countP_cons, Nat.zero_add]
                  simp only [decide_eq_true_eq]
                  rfl
  | force b key target attempt =>
      unfold act
      dsimp only
      cases hp : (b.overwriteOnce key target).play s.scene with
      | mk out σ =>
          have hσ := (Breaker.hasLocks_overwriteOnce hp).trans hm
          rw [play_eq hp]
          cases out with
          | error f =>
              dsimp only
              split
              · rw [play_unlock]
                exact acted_shifts _ hi hσ rfl fun _ => Nat.zero_add _
              · exact hreturns _ hσ
          | ok stored =>
              obtain ⟨previous, r⟩ := stored
              dsimp only
              rw [play_unlock]
              exact acted_shifts _ hi hσ rfl fun _ => Nat.zero_add _

theorem occupies_cons (p : Place) (f : Frame) (fs : List Frame) (key : String) :
    (⟨p, f :: fs⟩ : Stand).occupies key =
      (⟨p, fs⟩ : Stand).occupies key + if f.key = key then 1 else 0 := by
  rw [Stand.occupies, Stand.occupies, List.countP_cons, ← Nat.add_assoc]
  simp only [decide_eq_true_eq]

theorem line_conclude {f : Frame} (hm : s.scene.store.hasLocks = true)
    (result : Except Failure Json) : (s.conclude i f result).line = s.line.unlock f.key := by
  unfold conclude
  dsimp only
  cases hp : (f.breaker.conclude f.key f.opening result).play s.scene with
  | mk out σ =>
      rw [play_eq hp]
      exact line_unlock (s := { s with scene := σ }) ((Breaker.hasLocks_conclude hp).trans hm) f.key

theorem work_cases {f : Frame} (hi : s.stands[i]? = some ⟨.working, f :: fs⟩) :
    s.work t i f = s.conclude i f f.result ∨ s.Shifts i ⟨.working, f :: fs⟩ (s.work t i f) := by
  unfold work
  split
  · rename_i step inner h
    refine .inr (still_shifts rfl (stands_modifyTask
      (g := fun st => ⟨.starting step, { f with inner } :: st.frames.tail⟩) (fun _ => rfl) hi)
      rfl rfl fun k => ?_)
    exact (occupies_cons _ _ _ k).trans (occupies_cons _ f fs k).symm
  · exact .inl rfl
  · dsimp only
    split
    · exact .inl rfl
    · rename_i gate _ _ _
      refine .inr ⟨_, ?_, suspend_stands hi⟩
      rw [line_suspend]
      have hjoins : Shift i s.stands s.line ⟨.working, f :: fs⟩
          ((s.line.setQueue (.gate gate) (s.line.queue (.gate gate) ++
            [⟨i, (waiter t i).state⟩])).suspend i (waiter t i).state) ⟨.atGate gate, f :: fs⟩ :=
        .joins rfl rfl (fun _ => rfl) (state_waiter t i)
      exact hjoins

theorem work_shifts {f : Frame} (hm : s.scene.store.hasLocks = true)
    (hi : s.stands[i]? = some ⟨.working, f :: fs⟩) :
    s.Shifts i ⟨.working, f :: fs⟩ (s.work t i f) := by
  rcases work_cases (t := t) hi with h | h
  · rw [h]
    refine ⟨_, ?_, (conclude_seen hi f.result).2⟩
    rw [line_conclude hm]
    exact .releases rfl rfl fun k => occupies_cons .working f fs k
  · exact h

theorem leaveGate_eq (s : Schedule) (t : Task) (i : Nat) (f : Frame) (gate : String) :
    ∃ (left : Schedule) (result : Except Failure Json),
      s.leaveGate t i f gate = left.conclude i f result ∧ left.scene = s.scene ∧
      left.stands = s.stands ∧
      left.line = s.line.setQueue (.gate gate) (Waiter.leave i (s.line.queue (.gate gate))) := by
  unfold leaveGate
  dsimp only
  split
  · exact ⟨_, _, rfl, rfl, stands_modifyTask_self fun _ => rfl, rfl⟩
  · exact ⟨_, _, rfl, rfl, rfl, rfl⟩

theorem leaveGate_shifts {f : Frame} {gate : String} (hm : s.scene.store.hasLocks = true)
    (hi : s.stands[i]? = some ⟨.atGate gate, f :: fs⟩) :
    s.Shifts i ⟨.atGate gate, f :: fs⟩ (s.leaveGate t i f gate) := by
  obtain ⟨left, result, h, hscene, hstands, hline⟩ := s.leaveGate_eq t i f gate
  rw [h]
  refine ⟨_, ?_, hstands ▸ (conclude_seen (hstands ▸ hi) result).2⟩
  rw [line_conclude (hscene ▸ hm), hline]
  exact .leavesGate

theorem comeBack_shifts {result : Except Failure Answer}
    (hi : s.stands[i]? = some ⟨.returning result, fs⟩) (ht : t.frames = fs) :
    s.Shifts i ⟨.returning result, fs⟩ (s.comeBack t i result) := by
  unfold comeBack
  split
  · rename_i h
    rw [← ht, h] at hi ⊢
    exact ⟨⟨.done, []⟩, .drops (.inr ⟨⟨result, rfl⟩, rfl⟩), stands_goTo (s := { s with
      ready := s.ready.tail, finished := (i, result) :: s.finished }) hi⟩
  · rename_i f rest h
    rw [← ht, h] at hi ⊢
    exact still_shifts rfl (stands_goTo (s := (s.play (Act.emit (.inner result))).2) hi) rfl rfl
      fun _ => rfl

/-- What a bit of progress does to the line: nothing where no task can go on, and otherwise what the
turn of the first task does. -/
theorem tick_shifts (hm : s.scene.store.hasLocks = true)
    (hknown : ∀ i, s.ready.head? = some i → i < s.stands.length) :
    s.ready = [] ∧ s.tick = s ∨
      ∃ i st, s.ready.head? = some i ∧ s.stands[i]? = some st ∧ s.Shifts i st s.tick := by
  obtain ⟨hready, h⟩ | ⟨i, hhead, ⟨hnone, -⟩ | ⟨t, ht, h⟩⟩ := s.tick_cases
  · exact .inl ⟨hready, h⟩
  · have hlt := hknown i hhead
    rw [stands, List.length_map] at hlt
    exact absurd (List.getElem?_eq_none_iff.1 hnone) (Nat.not_le_of_lt hlt)
  · rw [h]
    obtain ⟨place, frames, flag⟩ := t
    have hi : s.stands[i]? = some ⟨place, frames⟩ := stands_of_task ht
    refine .inr ⟨i, _, hhead, hi, ?_⟩
    have hself : s.stands.set i ⟨place, frames⟩ = s.stands := by
      obtain ⟨hlt, he⟩ := List.getElem?_eq_some_iff.1 hi
      rw [← he, List.set_getElem_self]
    have hdrops : (⟨place, frames⟩ : Stand).Halted →
        s.Shifts i ⟨place, frames⟩ { s with ready := s.ready.tail } :=
      fun hhalted => ⟨_, .drops (.inl ⟨hhalted, rfl⟩), hself.symm⟩
    cases place with
    | starting step =>
        cases frames with
        | nil => exact begin_shifts hi
        | cons f fs => exact start_shifts hi
    | requesting op => exact request_shifts hm hi
    | queued op => exact leaveQueue_shifts hi
    | acting op => exact act_shifts hm hi
    | working =>
        cases frames with
        | nil => exact hdrops .idle
        | cons f fs => exact work_shifts hm hi
    | atGate gate =>
        cases frames with
        | nil => exact hdrops .atGate
        | cons f fs => exact leaveGate_shifts hm hi
    | returning result => exact comeBack_shifts hi rfl
    | done => exact hdrops .done

end Schedule

end KeyedBreaker
