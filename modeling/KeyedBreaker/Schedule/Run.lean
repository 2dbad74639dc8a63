import KeyedBreaker.Schedule.Basic

namespace KeyedBreaker

mutual

def Step.weight : Step → Nat
  | .call _ _ _ inner => Step.weights inner + 8
  | .force b _ _ => 3 * (b.policy.attempts.toNat - 1) + 6
  | _ => 3

def Step.weights : List Step → Nat
  | [] => 0
  | s :: ss => s.weight + Step.weights ss

end

namespace Operation

def weight : Operation → Nat
  | .call _ _ _ inner => Step.weights inner + 5
  | .force b _ _ attempt => 3 * (b.policy.attempts.toNat - attempt) + 3

end Operation

namespace Place

def weight : Place → Nat
  | .starting s => s.weight
  | .requesting op => op.weight + 2
  | .queued op => op.weight + 1
  | .acting op => op.weight
  | .returning _ => 2
  | .working => 1
  | .atGate _ | .done => 0

end Place

namespace Task

def weight (t : Task) : Nat :=
  t.place.weight + (t.frames.map fun f => Step.weights f.inner + 3).sum

end Task

/-- What can be seen of one submitted step and of what it set going. -/
structure Report where
  /-- The results of the tasks that are done now, in the order in which they ended. -/
  finished : List (Nat × Except Failure Answer)
  events : List Event
  changes : List (String × Option Store.Entry)

namespace Schedule

def weight (s : Schedule) : Nat := (s.tasks.map Task.weight).sum

def runFor : Nat → Schedule → Schedule
  | 0, s => s
  | bound + 1, s => if s.ready.isEmpty then s else runFor bound s.tick

def run (s : Schedule) : Schedule := s.runFor s.weight

def add (s : Schedule) (step : Step) : Schedule :=
  { s with
    tasks := s.tasks ++ [{ place := .starting step }]
    ready := s.ready ++ [s.tasks.length] }

def submit (s : Schedule) (step : Step) : Schedule := (s.add step).run

def gained {α : Type} (earlier later : List α) : List α :=
  (later.take (later.length - earlier.length)).reverse

def report (earlier later : Schedule) : Report where
  finished := gained earlier.finished later.finished
  events := gained earlier.scene.events later.scene.events
  changes := earlier.scene.store.changes later.scene.store

def submitAll (s : Schedule) : List Step → List Report × Schedule
  | [] => ([], s)
  | step :: steps =>
    let next := s.submit step
    let (reports, last) := next.submitAll steps
    (s.report next :: reports, last)

def pending (s : Schedule) : List Nat :=
  (List.range s.tasks.length).filter fun i =>
    !s.finished.any (·.1 = i)

end Schedule

end KeyedBreaker
