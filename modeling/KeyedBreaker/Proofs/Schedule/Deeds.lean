import KeyedBreaker.Proofs.Breaker.Local
import KeyedBreaker.Proofs.Schedule.Unopposed

namespace KeyedBreaker

open Act

structure Reading where
  now : Instant
  monotonic : Binary64

namespace Scene

def reading (s : Scene) : Reading := ⟨s.now, s.monotonic⟩

def showing (s : Scene) (r : Reading) : Scene := { s with now := r.now, monotonic := r.monotonic }

end Scene

def Breaker.Stage.opening? : Breaker.Stage → Option Breaker.Opening
  | .running o => some o
  | .ended _ => none

def Place.isWorking : Place → Bool
  | .working => true
  | _ => false

namespace Operation

/-- What an operation does once it has the lock of its key, with an opening if it is a call whose
function is running then. -/
def enter : Operation → Act (Option Breaker.Opening)
  | .call b key work _ => Breaker.Stage.opening? <$> b.enterCall key work
  | .force b key target _ => do
    let previous ← b.overwriteOnce key target
    b.confirm key target previous.1
    return none

def exit : Operation → Breaker.Opening → Except Failure Json → Act Unit
  | .call b key _ _, o, result => discard (b.conclude key o result)
  | .force .., _, _ => return ()

end Operation

/-- How far an operation has come that has got the lock of its key, with what the clocks showed when
it began, and when its function ended if that was running meanwhile. -/
inductive Progress where
  | ready
  | running (entry : Reading)
  | over (entry : Reading) (exit : Option (Reading × Except Failure Json))

/-- What an operation of a task does while it has the lock of its key. -/
structure Deed where
  task : Nat
  op : Operation
  progress : Progress

namespace Deed

def isOver (d : Deed) : Bool :=
  match d.progress with
  | .over .. => true
  | _ => false

def enter (r : Reading) (running : Bool) (d : Deed) : Deed :=
  match d.progress with
  | .ready => { d with progress := if running then .running r else .over r none }
  | _ => d

def exit (r : Reading) (result : Except Failure Json) (d : Deed) : Deed :=
  match d.progress with
  | .running entry => { d with progress := .over entry (some (r, result)) }
  | _ => d

def play (d : Deed) (s : Scene) : Scene :=
  match d.progress with
  | .ready => s
  | .running entry | .over entry none => (d.op.enter.play (s.showing entry)).2
  | .over entry (some (exit, result)) =>
    match d.op.enter.play (s.showing entry) with
    | (.ok (some o), s') => ((d.op.exit o result).play (s'.showing exit)).2
    | (_, s') => s'

theorem play_exit {d : Deed} {s : Scene} {entry r : Reading} {o : Breaker.Opening}
    {result : Except Failure Json} (hd : d.progress = .running entry)
    (ho : (d.op.enter.play (s.showing entry)).1 = .ok (some o)) :
    (d.exit r result).play s = ((d.op.exit o result).play ((d.play s).showing r)).2 := by
  obtain ⟨task, op, progress⟩ := d
  cases hd
  dsimp only [exit, play] at ho ⊢
  rcases h : op.enter.play (s.showing entry) with ⟨out, s'⟩
  rw [h] at ho
  cases ho
  rfl

end Deed

def Scene.replay (s : Scene) (ds : List Deed) : Scene := ds.foldr Deed.play s

namespace Operation

variable (op : Operation)

/-- What an operation does depends on the records of its key. -/
theorem local_enter : op.enter.Respects (Scene.Agree op.key) := by
  cases op with
  | call b key w inner => exact ((agree_likeness key).enterCall b w).map _
  | force b key target attempt =>
      exact ((agree_likeness key).overwriteOnce b target).bind fun previous =>
        ((agree_likeness key).confirm b target previous.1).bind fun _ => respects_pure none

theorem local_exit (o : Breaker.Opening) (result : Except Failure Json) :
    (op.exit o result).Respects (Scene.Agree op.key) := by
  cases op with
  | call b key w inner => exact ((agree_likeness key).conclude b o result).discard
  | force b key target attempt => exact respects_pure ()

end Operation

namespace Turn

variable {σ σ' : Scene} {st st' : Stand}

theorem requesting_or_queued {op : Operation} (h : Turn σ st σ' st') (hp : st'.place = .acting op) :
    σ' = σ ∧ st'.frames = st.frames ∧
      (st.place = .requesting op ∨ st.place = .queued op) := by
  cases h with
  | enters =>
      cases hp
      exact ⟨rfl, rfl, .inl rfl⟩
  | wakes =>
      cases hp
      exact ⟨rfl, rfl, .inr rfl⟩
  | _ => cases hp

/-- What becomes of a task that acts: a function of its own is running, or its step has ended. -/
theorem enter_of_acting {op : Operation} {fs : List Frame} (h : Turn σ ⟨.acting op, fs⟩ σ' st')
    (hq : σ.Quiet) : σ' = (op.enter.play σ).2 ∧
      ((∃ b key w inner o, op = .call b key w inner ∧ (op.enter.play σ).1 = .ok (some o) ∧
          st' = ⟨.working, ⟨b, key, o, inner, w.gate, w.result⟩ :: fs⟩) ∨
        ∃ result, st' = ⟨.returning result, fs⟩) := by
  cases h with
  | @opens _ b k w inner _ o hp =>
      rw [Operation.enter, play_map, hp]
      exact ⟨rfl, .inl ⟨b, k, w, inner, o, rfl, rfl, rfl⟩⟩
  | ends hp | breaks hp =>
      rw [Operation.enter, play_map, hp]
      exact ⟨rfl, .inr ⟨_, rfl⟩⟩
  | @forces σ₁ b k target attempt _ previous r hp =>
      obtain ⟨out, σ₂, hc, -, -⟩ := b.confirm_leads k target previous σ₁
      rw [Operation.enter, play_bind_ok σ hp, hc, play_bind, hc]
      refine ⟨?_, .inr ⟨_, rfl⟩⟩
      cases out <;> rfl
  | retries hp hf =>
      cases Breaker.overwritten_of_play hq hp with
      | failed hf' => rw [hf'] at hf; cases hf
  | fails hp =>
      rw [Operation.enter, play_bind_error σ hp]
      exact ⟨rfl, .inr ⟨_, rfl⟩⟩
  | concludes hends => obtain ⟨hp, -⟩ | ⟨⟨gate, hp⟩, -⟩ := hends <;> cases hp

theorem goesOn {f : Frame} {fs : List Frame} {p : Place} (h : Turn σ ⟨p, f :: fs⟩ σ' st')
    (hp : p = .working ∨ ∃ gate, p = .atGate gate) :
    (∃ result, st'.place = .returning result) ∨
      σ' = σ ∧ (∀ op, st'.place ≠ .acting op) ∧
        ∃ inner, st'.frames = { f with inner } :: fs := by
  cases h with
  | nests => exact .inr ⟨rfl, (fun _ hp => by cases hp), _, rfl⟩
  | pauses => exact .inr ⟨rfl, (fun _ hp => by cases hp), f.inner, rfl⟩
  | concludes => exact .inl ⟨_, rfl⟩
  | _ => rcases hp with hp | ⟨gate, hp⟩ <;> cases hp

end Turn

namespace Schedule

variable {s : Schedule} {i : Nat} {st st' : Stand} {f : Frame} {result : Except Failure Json}
  {key : String} {ds : List Deed}

def turn? (s : Schedule) : Option (Nat × Place × Place) := do
  let i ← s.ready.head?
  let st ← s.stands[i]?
  let st' ← s.tick.stands[i]?
  return (i, st.place, st'.place)

/-- The deeds under a key after the next turn: a task gets the lock, its operation acts, or the function
of its call ends. -/
def noted (key : String) (s : Schedule) (ds : List Deed) : List Deed :=
  match s.ending? with
  | some (_, f, result) =>
    if f.key = key then ds.modifyHead (Deed.exit s.scene.reading result) else ds
  | none =>
    match s.turn? with
    | some (_, .acting op, p) =>
      if op.key = key then ds.modifyHead (Deed.enter s.scene.reading p.isWorking) else ds
    | some (i, _, .acting op) => if op.key = key then ⟨i, op, .ready⟩ :: ds else ds
    | _ => ds

/-- The deeds under a key in a run, latest first, on top of earlier ones. -/
def deeds (key : String) (s : Schedule) : List Move → List Deed → List Deed
  | [], ds => ds
  | .submit step :: ms, ds => (s.add step).deeds key ms ds
  | .turn :: ms, ds => s.tick.deeds key ms (s.noted key ds)

theorem ending?_of_returns {p : Place} {fs : List Frame} (hi : s.ready.head? = some i)
    (hst : s.stands[i]? = some ⟨p, f :: fs⟩) (hp : p = .working ∨ ∃ gate, p = .atGate gate)
    (hreturns : ∃ a, s.tick.stands[i]?.map (·.place) = some (.returning a)) :
    ∃ result, s.ending? = some (i, f, result) := by
  obtain ⟨t, ht, hstand⟩ := task_of_stands hst
  rw [tick_eq_proceed hi ht] at hreturns
  obtain ⟨place, frames, flag⟩ := t
  unfold ending?
  rw [hi, Option.bind_eq_bind, Option.bind_some, ht, Option.bind_eq_bind, Option.bind_some]
  rcases hp with rfl | ⟨gate, rfl⟩
  · cases hstand
    cases hc : (f.inner.isEmpty && f.gate.all fun gate => (s.gates gate).isOpen) with
    | true => exact ⟨_, if_pos hc⟩
    | false =>
        obtain ⟨a, ha⟩ := hreturns
        have hplace : ∀ {s' : Schedule} {q : Place} {gs : List Frame},
            s'.stands = s.stands.set i ⟨q, gs⟩ → s'.stands[i]?.map (·.place) = some q := by
          intro s' q gs h
          rw [h, List.getElem?_set_self (List.getElem?_eq_some_iff.1 hst).1]
          rfl
        exfalso
        unfold proceed work at ha
        dsimp only at ha
        split at ha
        · rw [hplace (stands_modifyTask (g := fun st => ⟨.starting _, _ :: st.frames.tail⟩)
            (fun _ => rfl) hst)] at ha
          cases ha
        · rename_i hinner hgate
          rw [hinner, hgate] at hc
          cases hc
        · rename_i gate hinner hgate
          rw [hinner, hgate] at hc
          have hclosed : (s.gates gate).isOpen = false := hc
          rw [hclosed, if_neg Bool.false_ne_true] at ha
          cases (hplace (suspend_stands (s := s.setGate gate _) hst)).symm.trans ha
  · cases hstand
    cases hc : (flag || Waiter.isCancelled i (s.gates gate).queue) with
    | true => exact ⟨_, if_pos hc⟩
    | false => exact ⟨_, if_neg (by rw [hc]; exact Bool.false_ne_true)⟩

theorem key?_of_ending {j : Nat} (hend : s.ending? = some (j, f, result))
    (hi : s.ready.head? = some i) (hst : s.stands[i]? = some st) :
    st.key? = some f.key ∧ (st.place = .working ∨ ∃ gate, st.place = .atGate gate) := by
  obtain ⟨p, fs, -, hj, hp, hst', -⟩ := conclude_of_ending hend
  rw [hi] at hj
  cases hj
  rw [hst] at hst'
  cases hst'
  obtain rfl | ⟨gate, rfl⟩ := hp
  · exact ⟨rfl, .inl rfl⟩
  · exact ⟨rfl, .inr ⟨gate, rfl⟩⟩

theorem ending?_eq_none (hi : s.ready.head? = some i) (hst : s.stands[i]? = some st)
    (h : ¬ (st.place = .working ∨ ∃ gate, st.place = .atGate gate)) : s.ending? = none :=
  Option.eq_none_iff_forall_ne_some.2 fun ⟨_, _, _⟩ hend => h (key?_of_ending hend hi hst).2

theorem turn?_eq (hi : s.ready.head? = some i) (hst : s.stands[i]? = some st)
    (hstands : s.tick.stands = s.stands.set i st') : s.turn? = some (i, st.place, st'.place) := by
  have hst' : s.tick.stands[i]? = some st' := by
    rw [hstands, List.getElem?_set_self (List.getElem?_eq_some_iff.1 hst).1]
  unfold turn?
  rw [hi, Option.bind_eq_bind, Option.bind_some, hst, Option.bind_eq_bind, Option.bind_some, hst']
  rfl

section

variable (hi : s.ready.head? = some i) (hst : s.stands[i]? = some st)
  (hstands : s.tick.stands = s.stands.set i st')

include hi hst hstands

theorem noted_of_takes {op : Operation}
    (hp : st.place = .requesting op ∨ st.place = .queued op) (hop : st'.place = .acting op)
    (hkey : op.key = key) : s.noted key ds = ⟨i, op, .ready⟩ :: ds := by
  have hnone : s.ending? = none := by
    refine ending?_eq_none hi hst ?_
    rcases hp with hp | hp <;> rw [hp] <;> rintro (h | ⟨_, h⟩) <;> cases h
  unfold noted
  rw [hnone, turn?_eq hi hst hstands, hop]
  rcases hp with hp | hp <;> rw [hp] <;> exact if_pos hkey

theorem noted_of_acts {op : Operation} (hop : st.place = .acting op) (hkey : op.key = key) :
    s.noted key ds = ds.modifyHead (Deed.enter s.scene.reading st'.place.isWorking) := by
  have hnone : s.ending? = none := by
    refine ending?_eq_none hi hst ?_
    rw [hop]
    rintro (h | ⟨_, h⟩) <;> cases h
  unfold noted
  rw [hnone, turn?_eq hi hst hstands, hop]
  exact if_pos hkey

/-- A turn in which nothing is done for the key, or the function of a call goes on, is not noted. -/
theorem noted_of_rest (hend : ∀ j f result, s.ending? = some (j, f, result) → f.key ≠ key)
    (hp : ∀ op, st.place = .acting op → op.key ≠ key)
    (hp' : ∀ op, st'.place = .acting op → op.key ≠ key) : s.noted key ds = ds := by
  unfold noted
  split
  · exact if_neg (hend _ _ _ ‹_›)
  · rw [turn?_eq hi hst hstands]
    split
    · rename_i hturn
      obtain ⟨-, hturn⟩ := Prod.mk.inj (Option.some.inj hturn)
      exact if_neg (hp _ (Prod.mk.inj hturn).1)
    · rename_i hturn
      obtain ⟨-, hturn⟩ := Prod.mk.inj (Option.some.inj hturn)
      exact if_neg (hp' _ (Prod.mk.inj hturn).2)
    · rfl

end

theorem noted_of_ends (hend : s.ending? = some (i, f, result)) (hkey : f.key = key) :
    s.noted key ds = ds.modifyHead (Deed.exit s.scene.reading result) := by
  unfold noted
  rw [hend]
  exact if_pos hkey

theorem noted_of_halted (hstands : s.tick.stands = s.stands)
    (h : ∀ i st, s.ready.head? = some i → s.stands[i]? = some st → st.Halted) :
    s.noted key ds = ds := by
  cases hi : s.ready.head? with
  | none =>
      have hend : s.ending? = none := by
        unfold ending?
        rw [hi]
        rfl
      unfold noted turn?
      rw [hend, hi]
      rfl
  | some i =>
      cases hst : s.stands[i]? with
      | none =>
          have hend : s.ending? = none := by
            refine Option.eq_none_iff_forall_ne_some.2 fun ⟨j, f, result⟩ hend => ?_
            obtain ⟨p, fs, -, hj, -, hst', -⟩ := conclude_of_ending hend
            rw [hi] at hj
            cases hj
            rw [hst] at hst'
            cases hst'
          unfold noted turn?
          rw [hend, hi, Option.bind_eq_bind, Option.bind_some, hst]
          rfl
      | some st =>
          have hhalted := h i st hi hst
          have hself : s.tick.stands = s.stands.set i st := by
            obtain ⟨hlt, rfl⟩ := List.getElem?_eq_some_iff.1 hst
            rw [hstands, List.set_getElem_self]
          have hp : ∀ op, st.place = .acting op → op.key ≠ key := by
            intro op hop
            cases hhalted <;> cases hop
          refine noted_of_rest hi hst hself (fun j f result hend => ?_) hp hp
          obtain ⟨hkey, -⟩ := key?_of_ending hend hi hst
          cases hhalted <;> cases hkey

end Schedule

end KeyedBreaker
