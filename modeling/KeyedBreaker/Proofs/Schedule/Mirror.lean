import KeyedBreaker.Proofs.Breaker.Mirror
import KeyedBreaker.Proofs.Schedule.Held

namespace KeyedBreaker

namespace Schedule

open Act

/-- Two schedules in scenes that mirror each other, whose tasks stand alike; nobody waits for a lock. -/
structure Mirrors (s u : Schedule) : Prop where
  scene : s.scene.Mirrors u.scene
  tasks : u.tasks = s.tasks
  ready : u.ready = s.ready
  gates : u.gates = s.gates
  finished : u.finished = s.finished
  queues : ∀ key, (s.locks key).queue = [] ∧ (u.locks key).queue = []

namespace Mirrors

variable {α : Type} {s u : Schedule} {i : Nat} {t : Task}

theorem modifyTask (h : s.Mirrors u) (i : Nat) (f : Task → Task) :
    (s.modifyTask i f).Mirrors (u.modifyTask i f) :=
  ⟨h.scene, congrArg (·.modify i f) h.tasks, h.ready, h.gates, h.finished, h.queues⟩

theorem wake (h : s.Mirrors u) (woken : List Nat) : (s.wake woken).Mirrors (u.wake woken) :=
  ⟨h.scene, h.tasks, congrArg (· ++ woken) h.ready, h.gates, h.finished, h.queues⟩

theorem setReady (h : s.Mirrors u) (ready : List Nat) :
    ({ s with ready } : Schedule).Mirrors { u with ready } :=
  ⟨h.scene, h.tasks, rfl, h.gates, h.finished, h.queues⟩

theorem ready_tail (h : s.Mirrors u) :
    ({ s with ready := s.ready.tail } : Schedule).Mirrors { u with ready := u.ready.tail } := by
  rw [h.ready]
  exact h.setReady s.ready.tail

theorem setGate (h : s.Mirrors u) (gate : String) (g : Gate) :
    (s.setGate gate g).Mirrors (u.setGate gate g) := by
  refine ⟨h.scene, h.tasks, h.ready, ?_, h.finished, h.queues⟩
  unfold Schedule.setGate
  rw [h.gates]

theorem setLocks (h : s.Mirrors u) {locks locks' : String → Lock}
    (hqueues : ∀ key, (locks key).queue = [] ∧ (locks' key).queue = []) :
    ({ s with locks } : Schedule).Mirrors { u with locks := locks' } :=
  ⟨h.scene, h.tasks, h.ready, h.gates, h.finished, hqueues⟩

theorem queue_set {locks : String → Lock} {key : String} {l : Lock}
    (h : ∀ k, (locks k).queue = []) (hl : l.queue = []) (k : String) :
    (if k = key then l else locks k).queue = [] := by
  split
  · exact hl
  · exact h k

theorem setLock (h : s.Mirrors u) (key : String) {l l' : Lock} (hl : l.queue = [])
    (hl' : l'.queue = []) : (s.setLock key l).Mirrors (u.setLock key l') :=
  h.setLocks fun k => ⟨queue_set (fun k => (h.queues k).1) hl k,
    queue_set (fun k => (h.queues k).2) hl' k⟩

theorem setLock_left (h : s.Mirrors u) (key : String) {l : Lock} (hl : l.queue = []) :
    (s.setLock key l).Mirrors u :=
  h.setLocks fun k => ⟨queue_set (fun k => (h.queues k).1) hl k, (h.queues k).2⟩

theorem play (h : s.Mirrors u) {a : Act α} (ha : a.Respects Scene.Mirrors) :
    (u.play a).1 = (s.play a).1 ∧ (s.play a).2.Mirrors (u.play a).2 := by
  obtain ⟨hout, hscene⟩ := ha s.scene u.scene h.scene
  exact ⟨hout, hscene, h.tasks, h.ready, h.gates, h.finished, h.queues⟩

theorem release_of_queue_nil {l : Lock} (h : l.queue = []) :
    l.release = ({ l with holder := none }, []) := by
  unfold Lock.release Lock.pass
  rw [h]

theorem wake_nil (s : Schedule) : s.wake [] = s := by
  rw [Schedule.wake, List.append_nil]

theorem unlock (h : s.Mirrors u) (key : String) : (s.unlock key).Mirrors (u.unlock key) := by
  have hq := (h.queues key).1
  rw [Schedule.unlock, Schedule.unlock, if_pos h.scene.locks.1, if_neg (by rw [h.scene.locks.2]; decide),
    release_of_queue_nil hq]
  dsimp only
  rw [wake_nil]
  exact h.setLock_left key hq

theorem suspend (h : s.Mirrors u) (t : Task) (i : Nat) (p : Place) :
    (s.suspend t i p).Mirrors (u.suspend t i p) := by
  unfold Schedule.suspend
  rw [h.ready]
  exact (h.setReady _).modifyTask i _

theorem cancel (h : s.Mirrors u) (j : Nat) :
    (u.cancel j).1 = (s.cancel j).1 ∧ (s.cancel j).2.Mirrors (u.cancel j).2 := by
  have hflag := h.modifyTask j fun t => { t with cancelRequested := true }
  unfold Schedule.cancel
  rw [h.tasks]
  cases s.tasks[j]? with
  | none => exact ⟨rfl, h⟩
  | some t =>
      obtain ⟨place, frames, flag⟩ := t
      cases place with
      | done => exact ⟨rfl, h⟩
      | queued op =>
          -- nobody waits for a lock
          dsimp only
          rw [(h.queues op.key).1, (h.queues op.key).2]
          exact ⟨rfl, hflag⟩
      | atGate gate =>
          dsimp only
          rw [h.gates]
          split
          · exact ⟨rfl, (h.setGate gate _).wake [j]⟩
          · exact ⟨rfl, hflag⟩
      | _ => exact ⟨rfl, hflag⟩

theorem start (h : s.Mirrors u) (i : Nat) {step : Step} (hstep : step.Portable) :
    (s.start i step).Mirrors (u.start i step) := by
  have hplay : ∀ a, step.act? = some a →
      ((s.play a).2.returnWith i (s.play a).1).Mirrors ((u.play a).2.returnWith i (u.play a).1) := by
    intro a ha
    obtain ⟨hout, hm⟩ := h.play (Step.act?_mirrors ha hstep)
    rw [hout]
    exact hm.modifyTask i _
  cases step with
  | call b key work inner => exact h.modifyTask i _
  | force b key target => exact h.modifyTask i _
  | release gate =>
      unfold Schedule.start
      rw [h.gates]
      exact ((h.setGate gate _).wake _).modifyTask i _
  | cancel j =>
      obtain ⟨hout, hm⟩ := h.cancel j
      unfold Schedule.start
      dsimp only
      rw [hout]
      exact hm.modifyTask i _
  | _ =>
      have h := hplay _ rfl
      exact h

theorem begin (h : s.Mirrors u) (t : Task) (i : Nat) {step : Step} (hstep : step.Portable) :
    (s.begin t i step).Mirrors (u.begin t i step) := by
  unfold Schedule.begin
  split
  · exact h.modifyTask i _
  · exact h.start i hstep

theorem request (h : s.Mirrors u) (t : Task) (i : Nat) {op : Operation}
    (hfree : (s.locks op.key).isFree = true) : (s.request t i op).Mirrors (u.request t i op) := by
  have hq := (h.queues op.key).1
  unfold Schedule.request
  dsimp only
  rw [h.scene.locks.1, h.scene.locks.2, hfree]
  exact (h.setLock_left op.key (congrArg (Waiter.leave i) hq)).modifyTask i _

theorem leaveQueue (h : s.Mirrors u) (t : Task) (i : Nat) (op : Operation) :
    (s.leaveQueue t i op).Mirrors (u.leaveQueue t i op) := by
  obtain ⟨hq, hq'⟩ := h.queues op.key
  have hleave : ∀ {l : Lock}, l.queue = [] → l.leave i = (l, []) := by
    intro l hl
    obtain ⟨holder, queue⟩ := l
    obtain rfl : queue = [] := hl
    cases holder <;> rfl
  unfold Schedule.leaveQueue
  dsimp only
  rw [hq, hq', hleave hq, hleave hq']
  split
  · exact ((h.setLock op.key hq hq').wake []).modifyTask i _
  · exact (h.setLock op.key (congrArg (Waiter.leave i) hq) (congrArg (Waiter.leave i) hq')).modifyTask
      i _

theorem act (h : s.Mirrors u) (i : Nat) (op : Operation) : (s.act i op).Mirrors (u.act i op) := by
  cases op with
  | call b key w inner =>
      obtain ⟨hout, hm⟩ := h.play ((mirrors_likeness key).enterCall b w)
      unfold Schedule.act
      dsimp only
      rcases hs : s.play (b.enterCall key w) with ⟨out, s₁⟩
      rcases hu : u.play (b.enterCall key w) with ⟨out', u₁⟩
      rw [hs, hu] at hout hm
      obtain rfl : out' = out := hout
      cases out' with
      | error f => exact (hm.unlock key).modifyTask i _
      | ok stage =>
          cases stage with
          | running o => exact hm.modifyTask i _
          | ended v => exact (hm.unlock key).modifyTask i _
  | force b key target attempt =>
      obtain ⟨hout, hm⟩ := h.play ((mirrors_likeness key).overwriteOnce b target)
      unfold Schedule.act
      dsimp only
      rcases hs : s.play (b.overwriteOnce key target) with ⟨out, s₁⟩
      rcases hu : u.play (b.overwriteOnce key target) with ⟨out', u₁⟩
      rw [hs, hu] at hout hm
      obtain rfl : out' = out := hout
      cases out' with
      | ok stored =>
          obtain ⟨hout', hm'⟩ :=
            (hm.unlock key).play ((mirrors_likeness key).confirm b target stored.1)
          dsimp only
          rw [hout']
          exact hm'.modifyTask i _
      | error f =>
          dsimp only
          split
          · obtain ⟨-, hm'⟩ :=
              (hm.unlock key).play ((mirrors_likeness key).backOff b target attempt)
            exact hm'.modifyTask i _
          · exact (hm.unlock key).modifyTask i _

theorem conclude (h : s.Mirrors u) (i : Nat) (f : Frame) (result : Except Failure Json) :
    (s.conclude i f result).Mirrors (u.conclude i f result) := by
  obtain ⟨hout, hm⟩ := h.play ((mirrors_likeness f.key).conclude f.breaker f.opening result)
  unfold Schedule.conclude
  dsimp only
  rw [hout]
  exact (hm.unlock f.key).modifyTask i _

theorem work (h : s.Mirrors u) (t : Task) (i : Nat) (f : Frame) :
    (s.work t i f).Mirrors (u.work t i f) := by
  unfold Schedule.work
  split
  · exact h.modifyTask i _
  · exact h.conclude i f _
  · dsimp only
    rw [h.gates]
    split
    · exact h.conclude i f _
    · exact (h.setGate _ _).suspend t i _

theorem leaveGate (h : s.Mirrors u) (t : Task) (i : Nat) (f : Frame) (gate : String) :
    (s.leaveGate t i f gate).Mirrors (u.leaveGate t i f gate) := by
  unfold Schedule.leaveGate
  dsimp only
  rw [h.gates]
  split
  · exact ((h.setGate gate _).modifyTask i _).conclude i f _
  · exact (h.setGate gate _).conclude i f _

theorem comeBack (h : s.Mirrors u) (t : Task) (i : Nat) (result : Except Failure Answer) :
    (s.comeBack t i result).Mirrors (u.comeBack t i result) := by
  unfold Schedule.comeBack
  split
  · have hm : ({ s with ready := s.ready.tail, finished := (i, result) :: s.finished } : Schedule).Mirrors
        { u with ready := u.ready.tail, finished := (i, result) :: u.finished } :=
      ⟨h.scene, h.tasks, congrArg List.tail h.ready, h.gates, congrArg (_ :: ·) h.finished, h.queues⟩
    exact hm.modifyTask i _
  · obtain ⟨-, hm⟩ := h.play (mirrors_emit (.inner result))
    exact hm.modifyTask i _

theorem proceed (h : s.Mirrors u) (t : Task) (i : Nat)
    (hstep : ∀ step, t.place = .starting step → step.Portable)
    (hfree : ∀ op, t.place = .requesting op → (s.locks op.key).isFree = true) :
    (s.proceed t i).Mirrors (u.proceed t i) := by
  obtain ⟨place, frames, flag⟩ := t
  cases place with
  | starting step =>
      cases frames with
      | nil => exact h.begin _ i (hstep step rfl)
      | cons f fs => exact h.start i (hstep step rfl)
  | requesting op => exact h.request _ i (hfree op rfl)
  | queued op => exact h.leaveQueue _ i op
  | acting op => exact h.act i op
  | working =>
      cases frames with
      | nil => exact h.ready_tail
      | cons f fs => exact h.work _ i f
  | atGate gate =>
      cases frames with
      | nil => exact h.ready_tail
      | cons f fs => exact h.leaveGate _ i f gate
  | returning result => exact h.comeBack _ i result
  | done => exact h.ready_tail

/-- A turn whose operation, if it starts one, finds its lock free does the same in both schedules. -/
theorem tick (h : s.Mirrors u)
    (hturn : ∀ i t, s.ready.head? = some i → s.tasks[i]? = some t →
      (∀ step, t.place = .starting step → step.Portable) ∧
        ∀ op, t.place = .requesting op → (s.locks op.key).isFree = true) :
    s.tick.Mirrors u.tick := by
  obtain ⟨hready, htick⟩ | ⟨i, hhead, ⟨hnone, htick⟩ | ⟨t, ht, htick⟩⟩ := s.tick_cases
  · rw [htick, tick_of_nil (h.ready.trans hready)]
    exact h
  · rw [htick, tick_of_unknown (h.ready ▸ hhead) (h.tasks ▸ hnone)]
    exact h.ready_tail
  · obtain ⟨hstep, hfree⟩ := hturn i t hhead ht
    rw [htick, tick_eq_proceed (h.ready ▸ hhead) (h.tasks ▸ ht)]
    exact h.proceed t i hstep hfree

theorem add (h : s.Mirrors u) (step : Step) : (s.add step).Mirrors (u.add step) := by
  unfold Schedule.add
  rw [h.tasks, h.ready]
  exact ⟨h.scene, rfl, rfl, h.gates, h.finished, h.queues⟩

end Mirrors

structure Mirrored (s u : Schedule) : Prop where
  mirrors : s.Mirrors u
  obeys : s.Holds (fun _ => True) fun _ st => st.Obeys Step.Portable
  held : s.Held

variable {s u : Schedule} {ms : List Move}

theorem Mirrored.add (h : s.Mirrored u) {step : Step} (hstep : step.Everywhere Step.Portable) :
    (s.add step).Mirrored (u.add step) :=
  ⟨h.mirrors.add step, h.obeys.add (Stand.obeys_starting hstep), h.held.add step⟩

theorem Mirrored.tick (h : s.Mirrored u) (hapart : s.Apart) : s.tick.Mirrored u.tick := by
  refine ⟨h.mirrors.tick fun i t hi ht => ?_, h.obeys.tick fun st st' hst hturn => ?_,
    h.held.tick h.mirrors.scene.locks.1⟩
  · have hst := stands_of_task ht
    refine ⟨fun step hp => ?_, fun op hp => ?_⟩
    · exact ((h.obeys.stands _ (List.mem_of_getElem? hst)).starting hp).self
    · obtain ⟨place, frames, flag⟩ := t
      obtain rfl : place = .requesting op := hp
      exact h.held.free hapart hi hst (h.mirrors.queues op.key).1
  · exact ⟨trivial, hturn.obeys hst, fun _ => id⟩

theorem Mirrored.after (h : s.Mirrored u)
    (hsteps : ∀ step, .submit step ∈ ms → step.Everywhere Step.Portable)
    (hapart : s.AtTurns Apart ms) : (s.after ms).Mirrored (u.after ms) := by
  induction ms generalizing s u with
  | nil => exact h
  | cons m ms ih =>
      have hrest : ∀ step, .submit step ∈ ms → step.Everywhere Step.Portable :=
        fun step hs => hsteps step (List.mem_cons_of_mem _ hs)
      cases m with
      | submit step => exact ih (h.add (hsteps step List.mem_cons_self)) hrest hapart
      | turn => exact ih (h.tick hapart.1) hrest hapart.2

theorem mirrored_atRest (t : Instant) (keyPrefix : String) (answersBytes : Bool) :
    (atRest t (.memory [])).Mirrored (atRest t (.shared keyPrefix { answersBytes })) := by
  refine ⟨⟨⟨rfl, rfl, fun key => ?_, ⟨rfl, rfl⟩, rfl, rfl, ⟨rfl, rfl⟩, rfl⟩, rfl, rfl, rfl, rfl,
    fun _ => ⟨rfl, rfl⟩⟩, ⟨trivial, fun st hst => by cases hst⟩, fun key hk => absurd rfl hk⟩
  cases answersBytes <;> rfl

/-- The two kinds of stores are interchangeable: from empty stores on, whatever is submitted by any number
of breakers and whatever faults they meet on the way to the store, a run over one kind does what the same
run does over the other, under any prefix and with either way of answering, as long as no operation on a
key starts while a call on the key is in progress. All that was submitted stands alike after every move and
has come to the same results, the same has been seen, and the same record is stored under every key. -/
theorem stores_interchangeable (t : Instant) (keyPrefix : String) (answersBytes : Bool)
    (hsteps : ∀ step, .submit step ∈ ms → step.Everywhere Step.Portable)
    (hapart : (atRest t (.memory [])).AtTurns Apart ms) :
    ((atRest t (.shared keyPrefix { answersBytes })).after ms).finished =
        ((atRest t (.memory [])).after ms).finished ∧
      ((atRest t (.shared keyPrefix { answersBytes })).after ms).tasks =
        ((atRest t (.memory [])).after ms).tasks ∧
      ((atRest t (.shared keyPrefix { answersBytes })).after ms).ready =
        ((atRest t (.memory [])).after ms).ready ∧
      ((atRest t (.shared keyPrefix { answersBytes })).after ms).scene.shown =
        ((atRest t (.memory [])).after ms).scene.shown ∧
      ∀ key, ((atRest t (.shared keyPrefix { answersBytes })).after ms).scene.store.lookup key =
        ((atRest t (.memory [])).after ms).scene.store.lookup key := by
  have h := ((mirrored_atRest t keyPrefix answersBytes).after hsteps hapart).mirrors
  exact ⟨h.finished, h.tasks, h.ready, h.scene.shown, h.scene.lookup⟩

def sideBySide : List Move :=
  [.submit (.call {} "a" { gate := some "g" } []), .turn, .turn, .turn, .turn,
    .submit (.addFaults .write [.stale 7]), .turn, .turn,
    .submit (.force { number := 1 } "b" .open), .turn, .turn, .turn, .turn, .turn, .turn,
    .submit (.addFaults .write [.raise (.plain .value none)]), .turn, .turn,
    .submit (.release "g"), .turn, .turn, .turn, .turn]

theorem stores_interchangeable_sideBySide :
    ((atRest beginning (.memory [])).after sideBySide).finished.map (·.1) = [0, 4, 3, 2, 1] ∧
      ((atRest beginning (.shared "p:" { answersBytes := true })).after sideBySide).finished =
        ((atRest beginning (.memory [])).after sideBySide).finished ∧
      ((atRest beginning (.shared "p:" { answersBytes := true })).after sideBySide).scene.store.lookup "b" =
        ((atRest beginning (.memory [])).after sideBySide).scene.store.lookup "b" := by
  have hsteps : ∀ step, .submit step ∈ sideBySide → step.Everywhere Step.Portable := by
    simp [sideBySide, Step.Everywhere, Step.EverywhereIn, Step.Portable]
  have hapart : (atRest beginning (.memory [])).AtTurns Apart sideBySide := by
    simp only [sideBySide, AtTurns]
    decide +kernel
  obtain ⟨hfinished, -, -, -, hlookup⟩ := stores_interchangeable beginning "p:" true hsteps hapart
  exact ⟨by decide +kernel, hfinished, hlookup "b"⟩

end Schedule

end KeyedBreaker
