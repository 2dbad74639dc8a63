import KeyedBreaker.Task.Basic
import KeyedBreaker.Task.Waiting

namespace KeyedBreaker

/-- Tasks that take turns. In a turn the clock shows one time, listeners come back at once, and so does
a pause before another attempt: a task waits for locks and gates only. -/
structure Schedule where
  scene : Scene
  /-- Each task by its number. -/
  tasks : List Task := []
  /-- The tasks that can go on, in the order of their turns. -/
  ready : List Nat := []
  locks : String → Lock := fun _ => {}
  gates : String → Gate := fun _ => {}
  /-- The results of the tasks that are done, latest first. -/
  finished : List (Nat × Except Failure Answer) := []

namespace Schedule

variable {α : Type}

def play (s : Schedule) (a : Act α) : Except Failure α × Schedule :=
  let (result, scene) := a.play s.scene
  (result, { s with scene })

def modifyTask (s : Schedule) (i : Nat) (f : Task → Task) : Schedule :=
  { s with tasks := s.tasks.modify i f }

def goTo (s : Schedule) (i : Nat) (p : Place) : Schedule :=
  s.modifyTask i fun t => { t with place := p }

def wake (s : Schedule) (woken : List Nat) : Schedule := { s with ready := s.ready ++ woken }

def setLock (s : Schedule) (key : String) (l : Lock) : Schedule :=
  { s with locks := fun k => if k = key then l else s.locks k }

def setGate (s : Schedule) (gate : String) (g : Gate) : Schedule :=
  { s with gates := fun k => if k = gate then g else s.gates k }

/-- The waiter of a task: a task that was cancelled before cannot wait. -/
def waiter (t : Task) (i : Nat) : Waiter :=
  { task := i, state := if t.cancelRequested then .cancelled else .pending }

def suspend (s : Schedule) (t : Task) (i : Nat) (p : Place) : Schedule :=
  { s with ready := s.ready.tail ++ if t.cancelRequested then [i] else [] }.modifyTask i
    fun t => { t with place := p, cancelRequested := false }

def unlock (s : Schedule) (key : String) : Schedule :=
  if s.scene.store.hasLocks then
    let (l, woken) := (s.locks key).release
    (s.setLock key l).wake woken
  else s

def returnWith (s : Schedule) (i : Nat) (result : Except Failure Answer) : Schedule :=
  s.goTo i (.returning result)

def cancel (s : Schedule) (i : Nat) : Bool × Schedule :=
  match s.tasks[i]? with
  | none => (false, s)
  | some t =>
    match t.place with
    | .done => (false, s)
    | .queued op =>
      let l := s.locks op.key
      if Waiter.isPending i l.queue then
        (true, (s.setLock op.key { l with queue := Waiter.cancel i l.queue }).wake [i])
      else (true, s.modifyTask i fun t => { t with cancelRequested := true })
    | .atGate gate =>
      let g := s.gates gate
      if Waiter.isPending i g.queue then
        (true, (s.setGate gate { g with queue := Waiter.cancel i g.queue }).wake [i])
      else (true, s.modifyTask i fun t => { t with cancelRequested := true })
    | _ => (true, s.modifyTask i fun t => { t with cancelRequested := true })

def start (s : Schedule) (i : Nat) : Step → Schedule
  | .call b key work inner => s.goTo i (.requesting (.call b key work inner))
  | .force b key target => s.goTo i (.requesting (.force b key target 1))
  | .release gate =>
    let (g, woken) := (s.gates gate).release
    ((s.setGate gate g).wake woken).returnWith i (.ok .nothing)
  | .cancel task =>
    let (cancelled, s) := s.cancel task
    s.returnWith i (.ok (.flag cancelled))
  | step =>
    match step.act? with
    | some a =>
      let (result, s) := s.play a
      s.returnWith i result
    | none => s.returnWith i (.ok .nothing)

def request (s : Schedule) (t : Task) (i : Nat) (op : Operation) : Schedule :=
  let l := s.locks op.key
  if !s.scene.store.hasLocks then s.goTo i (.acting op)
  else if l.isFree then (s.setLock op.key (l.take i)).goTo i (.acting op)
  else (s.setLock op.key (l.join (waiter t i))).suspend t i (.queued op)

def giveUp (s : Schedule) (i : Nat) : Schedule :=
  s.modifyTask i fun t =>
    { t with place := .returning (.error .cancellation), cancelRequested := false }

def leaveQueue (s : Schedule) (t : Task) (i : Nat) (op : Operation) : Schedule :=
  let l := s.locks op.key
  if t.cancelRequested || Waiter.isCancelled i l.queue then
    let (l, woken) := l.leave i
    ((s.setLock op.key l).wake woken).giveUp i
  else (s.setLock op.key (l.take i)).goTo i (.acting op)

def act (s : Schedule) (i : Nat) : Operation → Schedule
  | .call b key work inner =>
    match s.play (b.enterCall key work) with
    | (.ok (.running opening), s) =>
      s.modifyTask i fun t =>
        { t with
          place := .working
          frames := ⟨b, key, opening, inner, work.gate, work.result⟩ :: t.frames }
    | (.ok (.ended v), s) => (s.unlock key).returnWith i (.ok (.value v))
    | (.error f, s) => (s.unlock key).returnWith i (.error f)
  | .force b key target attempt =>
    match s.play (b.overwriteOnce key target) with
    | (.ok (previous, stored), s) =>
      let (result, s) := (s.unlock key).play (b.confirm key target previous)
      s.returnWith i (result.map fun _ => .record (some stored))
    | (.error f, s) =>
      if f.isA .stale && attempt < b.policy.attempts then
        let (_, s) := (s.unlock key).play (b.backOff key target attempt)
        s.goTo i (.requesting (.force b key target (attempt + 1)))
      else (s.unlock key).returnWith i (.error f)

def conclude (s : Schedule) (i : Nat) (f : Frame) (result : Except Failure Json) : Schedule :=
  let (answer, s) := s.play (f.breaker.conclude f.key f.opening result)
  (s.unlock f.key).modifyTask i fun t =>
    { t with place := .returning (answer.map .value), frames := t.frames.tail }

def work (s : Schedule) (t : Task) (i : Nat) (f : Frame) : Schedule :=
  match f.inner, f.gate with
  | step :: inner, _ =>
    s.modifyTask i fun t =>
      { t with place := .starting step, frames := { f with inner } :: t.frames.tail }
  | [], none => s.conclude i f f.result
  | [], some gate =>
    let g := s.gates gate
    if g.isOpen then s.conclude i f f.result
    else (s.setGate gate (g.join (waiter t i))).suspend t i (.atGate gate)

def leaveGate (s : Schedule) (t : Task) (i : Nat) (f : Frame) (gate : String) : Schedule :=
  let g := s.gates gate
  let s := (s.setGate gate (g.leave i))
  if t.cancelRequested || Waiter.isCancelled i g.queue then
    (s.modifyTask i fun t => { t with cancelRequested := false }).conclude i f
      (.error .cancellation)
  else s.conclude i f f.result

def comeBack (s : Schedule) (t : Task) (i : Nat) (result : Except Failure Answer) : Schedule :=
  match t.frames with
  | [] =>
    { s with ready := s.ready.tail, finished := (i, result) :: s.finished }.goTo i .done
  | _ :: _ => (s.play (Act.emit (.inner result))).2.goTo i .working

/-- The first bit of progress of a task, which does nothing if it was cancelled before. -/
def begin (s : Schedule) (t : Task) (i : Nat) (step : Step) : Schedule :=
  if t.cancelRequested then s.giveUp i else s.start i step

def proceed (s : Schedule) (t : Task) (i : Nat) : Schedule :=
  match t.place, t.frames with
  | .starting step, [] => s.begin t i step
  | .starting step, _ :: _ => s.start i step
  | .requesting op, _ => s.request t i op
  | .queued op, _ => s.leaveQueue t i op
  | .acting op, _ => s.act i op
  | .working, f :: _ => s.work t i f
  | .atGate gate, f :: _ => s.leaveGate t i f gate
  | .returning result, _ => s.comeBack t i result
  | _, _ => { s with ready := s.ready.tail }

def tick (s : Schedule) : Schedule :=
  match s.ready with
  | [] => s
  | i :: rest =>
    match s.tasks[i]? with
    | none => { s with ready := rest }
    | some t => s.proceed t i

end Schedule

end KeyedBreaker
