import KeyedBreaker.Proofs.Breaker.Aborted
import KeyedBreaker.Proofs.Schedule.FirstCome
import KeyedBreaker.Proofs.Schedule.NoLostUpdate

namespace KeyedBreaker

namespace Store

variable {st st' : Store} {key : String}

def held (st : Store) (key : String) : Option Entry := st.entry? (st.nameOf key)

theorem lookup_congr (h : st.held key = st'.held key) : st.lookup key = st'.lookup key := by
  have hmixed : ∀ (ws : List (String × Record)) (keyPrefix : String) (client : Client),
      (memory ws).held key = (shared keyPrefix client).held key →
        (memory ws).lookup key = (shared keyPrefix client).lookup key := by
    intro ws keyPrefix client h
    rw [lookup_shared, lookup]
    change (ws.lookup key).map Entry.record =
      (client.content? (keyPrefix ++ key)).map Entry.content at h
    cases hw : ws.lookup key <;> cases hc : client.content? (keyPrefix ++ key) <;> rw [hw, hc] at h
    · rfl
    all_goals cases h
  cases st with
  | memory ws =>
      cases st' with
      | memory ws' =>
          have hinj : Function.Injective Entry.record := fun _ _ h => Entry.record.inj h
          exact congrArg Except.ok (Option.map_injective hinj h)
      | shared keyPrefix client => exact hmixed ws keyPrefix client h
  | shared keyPrefix client =>
      cases st' with
      | memory ws => exact (hmixed ws keyPrefix client h.symm).symm
      | shared keyPrefix' client' =>
          have hinj : Function.Injective Entry.content := fun _ _ h => Entry.content.inj h
          rw [lookup_shared, lookup_shared]
          exact congrArg (answer key) (Option.map_injective hinj h)

end Store

theorem Breaker.Prepared.lookup {b : Breaker} {key : String} {s s' : Scene} {x entry : Option Record}
    (hx : s.store.lookup key = .ok x) (h : b.Prepared key s x entry s') :
    s'.store.lookup key = .ok (entry.or x) := by
  cases h with
  | still _ hstore => rw [hstore, hx, Option.none_or]
  | moved _ _ _ _ hstore => rw [hstore, Store.lookup_kept, Option.some_or]

open Act

namespace Schedule

variable {s s' s'' : Schedule} {i j : Nat} {f : Frame} {g : Failure} {key : String} {ms : List Move}

theorem tick_of_aborted (h : s.ending? = some (i, f, .error g)) (hg : g.isOrdinary = false) :
    s.tick.scene = s.scene ∧ s.tick.stands[i]?.map (·.place) = some (.returning (.error g)) := by
  obtain ⟨p, fs, s₁, -, -, hst, hscene, hstands, htick⟩ := conclude_of_ending h
  obtain ⟨hscene₁, hstands₁⟩ := conclude_seen (hstands ▸ hst) (.error g)
  have hplay : (f.breaker.conclude f.key f.opening (.error g)).play s₁.scene =
      (.error g, s₁.scene) := by
    rw [Breaker.conclude_eq, Record.settle_of_not_ordinary hg]
    exact f.breaker.finish_of_not_ordinary f.key _ hg s₁.scene
  rw [hplay] at hscene₁ hstands₁
  rw [htick, hscene₁, hscene, hstands₁, hstands,
    List.getElem?_set_self (List.getElem?_eq_some_iff.1 hst).1]
  exact ⟨rfl, rfl⟩

/-- The function of the call, which ends with this failure, has left nothing behind: its end changes
nothing but that the call gives the failure. If the write failed not that came before it, the turn that
opened the call has told nobody how it came out, and has made the transition that was due for the record
found, or nothing; where nothing else was written under the key since, the entry of that transition is
left behind, or what was found. -/
def Discards (s : Schedule) (ms : List Move) (i : Nat) (f : Frame) (g : Failure) : Prop :=
  ((s.after ms).tick.scene = (s.after ms).scene ∧
    (s.after ms).tick.stands[i]?.map (·.place) = some (.returning (.error g))) ∧
  ∃ before later w, ms = before ++ .turn :: later ∧ (s.after before).Opens i f w ∧
    let found := (s.after before).scene
    let opened := (s.after before).tick.scene
    (∀ e, f.breaker.firstWrite? f.key found ≠ some (.error e)) →
      ∃ x entry, found.store.lookup f.key = .ok x ∧ f.breaker.Prepared f.key found x entry opened ∧
        SameVerdicts found opened ∧
        ((s.after ms).scene.store.held f.key = opened.store.held f.key →
          (s.after ms).tick.scene.store.lookup f.key = .ok (entry.or x))

theorem discards (htasks : s.tasks = []) (h : (s.after ms).ending? = some (i, f, .error g))
    (hg : g.isOrdinary = false) : s.Discards ms i f g := by
  obtain ⟨hscene, hplace⟩ := tick_of_aborted h hg
  obtain ⟨p, fs, -, -, -, hst, -⟩ := conclude_of_ending h
  obtain ⟨before, later, w, hms, hopens⟩ := exists_opens htasks hst List.mem_cons_self
  refine ⟨⟨hscene, hplace⟩, before, later, w, hms, hopens, fun hfirst => ?_⟩
  obtain ⟨⟨x, entry, hx, hprepared⟩, huntold⟩ := Breaker.prepared_of_running hfirst hopens.plays
  refine ⟨x, entry, hx, hprepared, huntold.sameVerdicts, fun hheld => ?_⟩
  rw [hscene, Store.lookup_congr hheld]
  exact hprepared.lookup hx

/-- Where the next turn concerns the key, it opens a call whose function starts, after a write before it
did not fail, or it ends such a call with a failure that is not ordinary. -/
inductive ComesToNothing (key : String) (s : Schedule) : Prop
  | opens {i : Nat} {f : Frame} {w : Work} : s.Opens i f w → f.key = key →
      f.breaker.config.check = .ok () → (∀ e, f.breaker.firstWrite? key s.scene ≠ some (.error e)) →
      ComesToNothing key s
  | aborts {i : Nat} {f : Frame} {g : Failure} : s.ending? = some (i, f, .error g) →
      g.isOrdinary = false → ComesToNothing key s
  | elsewhere : s.scene.Untouched key s.tick.scene → ComesToNothing key s

theorem ComesToNothing.passage (h : s.ComesToNothing key) :
    ∃ p, s.scene.Passage key s.tick.scene p := by
  cases h with
  | opens hopens hkey hcheck hfirst =>
      subst hkey
      obtain ⟨⟨x, entry, hx, hprepared⟩, -⟩ := Breaker.prepared_of_running hfirst hopens.plays
      exact Scene.passage_of_prepared hx hcheck hprepared
  | aborts hend hg =>
      rw [(tick_of_aborted hend hg).1]
      exact ⟨none, (Scene.Untouched.refl key s.scene).passage⟩
  | elsewhere huntouched => exact ⟨none, huntouched.passage⟩

theorem passage_of_nothing (h : s.AtTurns (ComesToNothing key) ms) :
    ∃ p, s.scene.Passage key (s.after ms).scene p := by
  induction ms generalizing s with
  | nil => exact ⟨none, (Scene.Untouched.refl key s.scene).passage⟩
  | cons m ms ih =>
      cases m with
      | submit step => exact ih h
      | turn =>
          obtain ⟨p, hp⟩ := h.1.passage
          obtain ⟨p', hp'⟩ := ih h.2
          exact ⟨_, hp.trans hp'⟩

/-- The task stands where it stood, and if it was cancelled, by a mark of its own or in the queue of a lock,
it still is. -/
structure Spares (i : Nat) (s s' : Schedule) : Prop where
  task : ∀ t, s.tasks[i]? = some t → ∃ t', s'.tasks[i]? = some t' ∧ t'.stand = t.stand ∧
    (t.cancelRequested = true → t'.cancelRequested = true)
  queue : ∀ key, Waiter.isCancelled i (s.locks key).queue = true →
    Waiter.isCancelled i (s'.locks key).queue = true

theorem Spares.trans {m : Schedule} (h : s.Spares i m) (h' : m.Spares i s') : s.Spares i s' where
  task t ht := by
    obtain ⟨t', ht', hstand, hflag⟩ := h.task t ht
    obtain ⟨t'', ht'', hstand', hflag'⟩ := h'.task t' ht'
    exact ⟨t'', ht'', hstand'.trans hstand, fun hc => hflag' (hflag hc)⟩
  queue key hc := h'.queue key (h.queue key hc)

theorem spares_of_same (htasks : s'.tasks = s.tasks) (hlocks : s'.locks = s.locks) :
    s.Spares i s' where
  task t ht := ⟨t, htasks ▸ ht, rfl, id⟩
  queue key := by
    rw [hlocks]
    exact id

theorem spares_modifyTask (hj : j ≠ i) (f : Task → Task) : s.Spares i (s.modifyTask j f) where
  task t ht := ⟨t, (List.getElem?_modify_ne _ _ hj).trans ht, rfl, id⟩
  queue _ := id

theorem spares_setLock {key : String} {l : Lock} (h : Waiter.isCancelled i (s.locks key).queue = true →
    Waiter.isCancelled i l.queue = true) : s.Spares i (s.setLock key l) where
  task t ht := ⟨t, ht, rfl, id⟩
  queue k hc := by
    rw [setLock]
    dsimp only
    split
    · subst k
      exact h hc
    · exact hc

theorem spares_unlock (key : String) : s.Spares i (s.unlock key) := by
  unfold unlock
  split
  · have hlock : s.Spares i (s.setLock key (s.locks key).release.1) :=
      spares_setLock ((Lock.keeps_pass { s.locks key with holder := none }).cancelled i)
    exact hlock.trans (spares_of_same rfl rfl)
  · exact spares_of_same rfl rfl

theorem spares_cancel (j : Nat) : s.Spares i (s.cancel j).2 := by
  have hmark : s.Spares i (s.modifyTask j fun t => { t with cancelRequested := true }) := by
    refine ⟨fun t ht => ?_, fun _ => id⟩
    by_cases hj : j = i
    · subst hj
      exact ⟨{ t with cancelRequested := true },
        (List.getElem?_modify_eq ..).trans (by rw [ht]; rfl), rfl, fun _ => rfl⟩
    · exact (spares_modifyTask hj _).task t ht
  unfold cancel
  split
  · exact spares_of_same rfl rfl
  · split
    · exact spares_of_same rfl rfl
    · dsimp only
      split
      · exact (spares_setLock Waiter.isCancelled_cancel).trans (spares_of_same rfl rfl)
      · exact hmark
    · dsimp only
      split
      · exact spares_of_same rfl rfl
      · exact hmark
    · exact hmark

theorem spares_leave (hj : j ≠ i) (key : String) :
    s.Spares i (s.setLock key ((s.locks key).leave j).1) := by
  refine spares_setLock fun hc => ?_
  refine (Lock.keeps_pass { s.locks key with queue := Waiter.leave j _ }).cancelled i ?_
  exact (Waiter.isCancelled_leave hj.symm).trans hc

theorem spares_take (hj : j ≠ i) (key : String) : s.Spares i (s.setLock key ((s.locks key).take j)) :=
  spares_setLock fun hc => (Waiter.isCancelled_leave hj.symm).trans hc

theorem spares_suspend (hj : j ≠ i) (t : Task) (p : Place) : s.Spares i (s.suspend t j p) :=
  Spares.trans (m := { s with ready := s.ready.tail ++ if t.cancelRequested then [j] else [] })
    (spares_of_same rfl rfl) (spares_modifyTask hj _)

theorem spares_start (hj : j ≠ i) (step : Step) : s.Spares i (s.start j step) := by
  have hplay : ∀ a, step.act? = some a → s.Spares i ((s.play a).2.returnWith j (s.play a).1) :=
    fun a _ => Spares.trans (m := (s.play a).2) (spares_of_same rfl rfl) (spares_modifyTask hj _)
  cases step with
  | call | force => exact spares_modifyTask hj _
  | release gate =>
      exact Spares.trans (m := (s.setGate gate (s.gates gate).release.1).wake
        (s.gates gate).release.2) (spares_of_same rfl rfl) (spares_modifyTask hj _)
  | cancel k => exact (spares_cancel k).trans (spares_modifyTask hj _)
  | _ =>
      have h := hplay _ rfl
      exact h

theorem spares_request (hj : j ≠ i) (t : Task) (op : Operation) : s.Spares i (s.request t j op) := by
  unfold request
  dsimp only
  split
  · exact spares_modifyTask hj _
  · split
    · exact (spares_take hj op.key).trans (spares_modifyTask hj _)
    · refine (spares_setLock fun hc => ?_).trans (spares_suspend hj t _)
      exact Waiter.isCancelled_append hc _

theorem spares_leaveQueue (hj : j ≠ i) (t : Task) (op : Operation) :
    s.Spares i (s.leaveQueue t j op) := by
  unfold leaveQueue
  dsimp only
  split
  · exact (spares_leave hj op.key).trans
      (Spares.trans (m := (s.setLock op.key ((s.locks op.key).leave j).1).wake
        ((s.locks op.key).leave j).2) (spares_of_same rfl rfl) (spares_modifyTask hj _))
  · exact (spares_take hj op.key).trans (spares_modifyTask hj _)

theorem spares_unlocked {σ σ' : Scene} (hj : j ≠ i) (key : String) (f : Task → Task) :
    s.Spares i (({ ({ s with scene := σ } : Schedule).unlock key with
      scene := σ' } : Schedule).modifyTask j f) := by
  let unlocked := ({ s with scene := σ } : Schedule).unlock key
  have hplayed : s.Spares i { s with scene := σ } := spares_of_same rfl rfl
  have hgoes : unlocked.Spares i { unlocked with scene := σ' } := spares_of_same rfl rfl
  exact ((hplayed.trans (spares_unlock key)).trans hgoes).trans (spares_modifyTask hj f)

theorem spares_act (hj : j ≠ i) (op : Operation) : s.Spares i (s.act j op) := by
  cases op with
  | call b key w inner =>
      unfold act
      dsimp only
      rcases hp : (b.enterCall key w).play s.scene with ⟨f | v | o, σ⟩ <;> rw [play_eq hp]
      · exact spares_unlocked hj key _
      · exact Spares.trans (m := { s with scene := σ }) (spares_of_same rfl rfl)
          (spares_modifyTask hj _)
      · exact spares_unlocked hj key _
  | force b key target attempt =>
      unfold act
      dsimp only
      rcases hp : (b.overwriteOnce key target).play s.scene with ⟨f | ⟨previous, r⟩, σ⟩ <;>
        rw [play_eq hp] <;> dsimp only
      · split
        · exact spares_unlocked hj key _
        · exact spares_unlocked hj key _
      · exact spares_unlocked hj key _

theorem spares_conclude (hj : j ≠ i) (f : Frame) (result : Except Failure Json) :
    s.Spares i (s.conclude j f result) := by
  unfold conclude
  dsimp only
  rcases hp : (f.breaker.conclude f.key f.opening result).play s.scene with ⟨out, σ⟩
  rw [play_eq hp]
  exact spares_unlocked hj f.key _

theorem spares_work (hj : j ≠ i) (t : Task) (f : Frame) : s.Spares i (s.work t j f) := by
  unfold work
  split
  · exact spares_modifyTask hj _
  · exact spares_conclude hj f _
  · rename_i gate _ _
    dsimp only
    split
    · exact spares_conclude hj f _
    · exact Spares.trans (m := s.setGate gate ((s.gates gate).join (waiter t j)))
        (spares_of_same rfl rfl) (spares_suspend hj t _)

theorem spares_leaveGate (hj : j ≠ i) (t : Task) (f : Frame) (gate : String) :
    s.Spares i (s.leaveGate t j f gate) := by
  have hleft : s.Spares i (s.setGate gate ((s.gates gate).leave j)) := spares_of_same rfl rfl
  unfold leaveGate
  dsimp only
  split
  · exact (hleft.trans (spares_modifyTask hj _)).trans (spares_conclude hj f _)
  · exact hleft.trans (spares_conclude hj f _)

theorem spares_comeBack (hj : j ≠ i) (t : Task) (result : Except Failure Answer) :
    s.Spares i (s.comeBack t j result) := by
  unfold comeBack
  split
  · exact Spares.trans (m := { s with ready := s.ready.tail, finished := (j, result) :: s.finished })
      (spares_of_same rfl rfl) (spares_modifyTask hj _)
  · exact Spares.trans (m := (s.play (Act.emit (.inner result))).2) (spares_of_same rfl rfl)
      (spares_modifyTask hj _)

theorem spares_proceed (hj : j ≠ i) (t : Task) : s.Spares i (s.proceed t j) := by
  unfold proceed
  split
  · unfold begin
    split
    · exact spares_modifyTask hj _
    · exact spares_start hj _
  · exact spares_start hj _
  · exact spares_request hj t _
  · exact spares_leaveQueue hj t _
  · exact spares_act hj _
  · exact spares_work hj t _
  · exact spares_leaveGate hj t _ _
  · exact spares_comeBack hj t _
  · exact spares_of_same rfl rfl

theorem spares_tick (hi : s.ready.head? ≠ some i) : s.Spares i s.tick := by
  obtain ⟨-, h⟩ | ⟨j, hj, ⟨-, h⟩ | ⟨t, -, h⟩⟩ := s.tick_cases <;> rw [h]
  · exact spares_of_same rfl rfl
  · exact spares_of_same rfl rfl
  · refine spares_proceed (fun hji => hi ?_) t
    rw [hj, hji]

theorem spares_add (step : Step) : s.Spares i (s.add step) where
  task t ht := by
    refine ⟨t, ?_, rfl, id⟩
    rw [add, List.getElem?_append_left (List.getElem?_eq_some_iff.1 ht).1]
    exact ht
  queue _ := id

theorem spares_after (h : s.AtTurns (fun u => u.ready.head? ≠ some i) ms) :
    s.Spares i (s.after ms) := by
  induction ms generalizing s with
  | nil => exact spares_of_same rfl rfl
  | cons m ms ih =>
      cases m with
      | submit step => exact (spares_add step).trans (ih h)
      | turn => exact (spares_tick h.1).trans (ih h.2)

def Doomed (s : Schedule) (i : Nat) (op : Operation) (fs : List Frame) : Prop :=
  ∃ t, s.tasks[i]? = some t ∧ t.stand = ⟨.queued op, fs⟩ ∧
    (t.cancelRequested = true ∨ Waiter.isCancelled i (s.locks op.key).queue = true)

variable {op : Operation} {fs : List Frame}

theorem Doomed.spared (h : s.Doomed i op fs) (hs : s.Spares i s') : s'.Doomed i op fs := by
  obtain ⟨t, ht, hstand, hdoomed⟩ := h
  obtain ⟨t', ht', hstand', hflag⟩ := hs.task t ht
  exact ⟨t', ht', hstand'.trans hstand, hdoomed.imp hflag (hs.queue op.key)⟩

theorem doomed_of_cancel (hst : s.stands[i]? = some ⟨.queued op, fs⟩) :
    (s.cancel i).2.Doomed i op fs := by
  obtain ⟨⟨place, frames, flag⟩, ht, hstand⟩ := task_of_stands hst
  cases hstand
  unfold cancel
  rw [ht]
  dsimp only
  split
  · rename_i hpending
    refine ⟨_, ht, rfl, .inr ?_⟩
    obtain ⟨w, hw, hd⟩ := List.any_eq_true.1 hpending
    have hwi := (of_decide_eq_true hd).1
    have hlock : ((s.setLock op.key { s.locks op.key with
        queue := Waiter.cancel i (s.locks op.key).queue }).wake [i]).locks op.key =
          { s.locks op.key with queue := Waiter.cancel i (s.locks op.key).queue } := if_pos rfl
    rw [hlock]
    refine List.any_eq_true.2 ⟨_, List.mem_map_of_mem hw, decide_eq_true ?_⟩
    rw [if_pos hwi]
    exact ⟨hwi, rfl⟩
  · refine ⟨⟨.queued op, frames, true⟩, ?_, rfl, .inl rfl⟩
    exact (List.getElem?_modify_eq ..).trans (by rw [ht]; rfl)

def others (i : Nat) (s : Schedule) (key : String) : List Waiter :=
  Waiter.leave i (s.locks key).queue

theorem others_cancel (s : Schedule) (i : Nat) (key : String) :
    (s.cancel i).2.others i key = s.others i key := by
  have hqueue : ∀ queue : List Waiter, Waiter.leave i (Waiter.cancel i queue) = Waiter.leave i queue := by
    intro queue
    induction queue with
    | nil => rfl
    | cons w queue ih =>
        by_cases hw : w.task = i
        · simpa [Waiter.leave, Waiter.cancel, hw] using ih
        · simpa [Waiter.leave, Waiter.cancel, hw] using ih
  unfold cancel
  split
  · rfl
  · split
    · rfl
    · rename_i op _
      dsimp only
      split
      · rw [others, wake, setLock]
        dsimp only
        split
        · subst key
          exact hqueue _
        · rfl
      · rfl
    · dsimp only
      split <;> rfl
    · rfl

/-- A doomed task gives up in its turn: nothing happens but that it leaves the queue. -/
theorem Doomed.givesUp (h : s.Doomed i op fs) (hi : s.ready.head? = some i) :
    s.tick.scene = s.scene ∧ s.tick.stands = s.stands.set i ⟨.returning (.error .cancellation), fs⟩ ∧
      (s.tick.locks op.key).queue.map (·.task) = (s.others i op.key).map (·.task) ∧
      ∀ key, key ≠ op.key → s.tick.locks key = s.locks key := by
  obtain ⟨⟨place, frames, flag⟩, ht, hstand, hdoomed⟩ := h
  cases hstand
  have hst : s.stands[i]? = some ⟨.queued op, frames⟩ := stands_of_task ht
  have hgives : (flag || Waiter.isCancelled i (s.locks op.key).queue) = true := by
    rcases hdoomed with h | h
    · exact Bool.or_eq_true_iff.2 (.inl h)
    · exact Bool.or_eq_true_iff.2 (.inr h)
  have htick : s.tick = ((s.setLock op.key ((s.locks op.key).leave i).1).wake
      ((s.locks op.key).leave i).2).giveUp i := by
    rw [tick_eq_proceed hi ht]
    exact if_pos hgives
  have hlock : s.tick.locks op.key = ((s.locks op.key).leave i).1 := by
    rw [htick]
    exact if_pos rfl
  refine ⟨by rw [htick]; rfl, ?_, ?_, fun key hkey => ?_⟩
  · rw [htick]
    exact giveUp_stands hst
  · rw [hlock]
    exact (Lock.keeps_pass _).tasks
  · rw [htick]
    exact if_neg hkey

/-- A task that waits for a lock and is cancelled now: this changes nothing but its own place in the queue,
and in its next turn, whatever happens before, it does nothing but leave the queue, in which the others keep
their order, and end its step with the cancellation. -/
structure GivesUp (s : Schedule) (i : Nat) (op : Operation) (fs : List Frame) : Prop where
  scene : (s.cancel i).2.scene = s.scene
  stands : (s.cancel i).2.stands = s.stands
  others : ∀ key, (s.cancel i).2.others i key = s.others i key
  quits : ∀ ms, (s.cancel i).2.AtTurns (fun u => u.ready.head? ≠ some i) ms →
    let u := (s.cancel i).2.after ms
    u.ready.head? = some i →
      u.tick.scene = u.scene ∧
      u.tick.stands = u.stands.set i ⟨.returning (.error .cancellation), fs⟩ ∧
      (u.tick.locks op.key).queue.map (·.task) = (u.others i op.key).map (·.task) ∧
      ∀ key, key ≠ op.key → u.tick.locks key = u.locks key

theorem givesUp (hst : s.stands[i]? = some ⟨.queued op, fs⟩) : s.GivesUp i op fs where
  scene := (s.cancel_unseen i).2
  stands := (s.cancel_unseen i).1
  others := s.others_cancel i
  quits _ hms hi := ((doomed_of_cancel hst).spared (spares_after hms)).givesUp hi

end Schedule

inductive Place.AwaitsLock : Place → Prop
  | starting {step : Step} {op : Operation} : step.operation? = some op → AwaitsLock (.starting step)
  | requesting {op : Operation} : AwaitsLock (.requesting op)
  | queued {op : Operation} : AwaitsLock (.queued op)

namespace Schedule

variable {s : Schedule} {i : Nat}

/-- Nothing is read, stored or told before a task has its lock. -/
theorem tick_of_awaits {p : Place} {fs : List Frame} (hi : s.ready.head? = some i)
    (hst : s.stands[i]? = some ⟨p, fs⟩) (hp : p.AwaitsLock) : s.tick.scene = s.scene := by
  have hnot : ¬ (⟨p, fs⟩ : Stand).Halted := by
    intro hh
    cases hp <;> cases hh
  obtain ⟨st', hturn, -⟩ := tick_of_head hi hst hnot
  generalize s.tick.scene = σ' at hturn
  cases hp with
  | starting hop =>
      cases hturn with
      | asks | signals => rfl
      | plays ha =>
          rename_i step _ a
          cases step <;> cases hop <;> cases ha
      | concludes hends => rcases hends with ⟨h, -⟩ | ⟨⟨_, h⟩, -⟩ <;> cases h
  | requesting | queued =>
      cases hturn with
      | concludes hends => rcases hends with ⟨h, -⟩ | ⟨⟨_, h⟩, -⟩ <;> cases h
      | _ => rfl

/-- A call whose function is cancelled or aborted leaves behind what it found, or the entry of the
transition that was due before its function started; so any number of such calls make one transition at
most, and where they find an open circuit just one, to half-open. A call that is cancelled while it waits
for its lock leaves nothing behind. This holds whatever faults are met, of any steps of any breakers over
any store. -/
theorem aborted_calls_leave_record (s : Schedule) (ms : List Move) :
    (s.tasks = [] → ∀ i f g, (s.after ms).ending? = some (i, f, .error g) → g.isOrdinary = false →
      s.Discards ms i f g) ∧
    (∀ key, s.AtTurns (ComesToNothing key) ms → ∃ p, s.scene.Passage key (s.after ms).scene p ∧
      ∀ r, s.scene.store.lookup key = .ok (some r) → r.status = .open →
        (s.after ms).scene.starts.count key ≠ s.scene.starts.count key → p = some (.open, .halfOpen)) ∧
    (∀ i p fs, s.ready.head? = some i → s.stands[i]? = some ⟨p, fs⟩ → p.AwaitsLock →
      s.tick.scene = s.scene) ∧
    ∀ i op fs, s.stands[i]? = some ⟨.queued op, fs⟩ → s.GivesUp i op fs := by
  refine ⟨fun htasks i f g hend hg => discards htasks hend hg, fun key hms => ?_,
    fun i p fs hi hst hp => tick_of_awaits hi hst hp, fun i op fs hst => givesUp hst⟩
  obtain ⟨p, hp⟩ := passage_of_nothing hms
  exact ⟨p, hp, fun r hr hs hstarted => hp.half_open hr hs hstarted⟩

def restedScene : Schedule :=
  atRest beginning (.memory [("k", { status := .open, closeAt := some beginning, version := 1 })])

def probe : List Move :=
  [Move.submit (.call {} "k" { gate := some "g" } [])] ++ List.replicate 4 Move.turn

def cancelledProbe : List Move := probe ++ [Move.submit (.cancel 0)] ++ List.replicate 2 Move.turn

def waitingProbe : List Move :=
  probe ++ [Move.submit (.call {} "k" {} [])] ++ List.replicate 2 Move.turn

theorem exists_opens_of_grown {b : Breaker} {key : String} {w : Work} {inner : List Step}
    {fs : List Frame} (hi : s.ready.head? = some i)
    (hst : s.stands[i]? = some ⟨.acting (.call b key w inner), fs⟩)
    (hgrown : (s.tick.stands[i]?.any fun st => fs.length < st.frames.length) = true) :
    ∃ f, s.Opens i f w ∧ f.breaker = b ∧ f.key = key := by
  obtain ⟨st', hturn, hstands⟩ := tick_of_head hi hst (fun h => by cases h)
  rw [hstands, List.getElem?_set_self (List.getElem?_eq_some_iff.1 hst).1, Option.any_some,
    decide_eq_true_iff] at hgrown
  generalize hσ : s.tick.scene = σ' at hturn
  cases hturn with
  | opens hp =>
      rw [← hσ] at hp
      exact ⟨⟨b, key, _, inner, w.gate, w.result⟩, ⟨hi, ⟨inner, fs, hst⟩, hp, rfl, rfl⟩, rfl, rfl⟩
  | ends | breaks => exact absurd hgrown (lt_irrefl _)
  | concludes hends => rcases hends with ⟨h, -⟩ | ⟨⟨_, h⟩, -⟩ <;> cases h

theorem ne_error_of_not_lost {x : Option (Except Failure Record)} (hlost : Breaker.isLost x = false)
    (hdropped : Breaker.isDropped x = false) : ∀ e, x ≠ some (.error e) := by
  rintro e rfl
  rw [Breaker.isLost, Bool.not_eq_false'] at hlost
  rw [Breaker.isDropped, hlost] at hdropped
  cases hdropped

theorem aborted_calls_leave_record_of_cancelledProbe :
    (∃ f g, (restedScene.after cancelledProbe).ending? = some (0, f, .error g) ∧
        restedScene.Discards cancelledProbe 0 f g) ∧
      restedScene.scene.Passage "k" (restedScene.after (cancelledProbe ++ [.turn])).scene
        (some (.open, .halfOpen)) ∧
      (restedScene.after [.submit (.call {} "k" {} [])]).tick.scene = restedScene.scene ∧
      ∃ op, (restedScene.after waitingProbe).GivesUp 1 op [] := by
  have hidle : ∀ {s : Schedule}, s.tick.scene = s.scene → ComesToNothing "k" s :=
    fun h => .elsewhere (h ▸ .refl "k" _)
  have hopens : ∀ {s : Schedule} {i : Nat},
      (∃ f, s.Opens i f { gate := some "g" } ∧ f.breaker = {} ∧ f.key = "k") →
      Breaker.isLost (({} : Breaker).firstWrite? "k" s.scene) = false →
      Breaker.isDropped (({} : Breaker).firstWrite? "k" s.scene) = false → ComesToNothing "k" s := by
    rintro s i ⟨f, hf, hb, hkey⟩ hlost hdropped
    have hcheck : ({} : Config).check = .ok () :=
      Limits.check_eq_ok_iff.2 (by constructor <;> decide +kernel)
    exact .opens hf hkey (hb ▸ hcheck) (hb ▸ ne_error_of_not_lost hlost hdropped)
  have hends : (restedScene.after cancelledProbe).ending?.isSome = true := by decide +kernel
  have hfirst : (restedScene.after cancelledProbe).ending?.map (·.1) = some 0 := by decide +kernel
  have hvoid : (restedScene.after cancelledProbe).ending?.map
      (fun e => Past.verdict {} ⟨beginning, beginning, e.2.2⟩) = some .void := by decide +kernel
  obtain ⟨⟨i, f, result⟩, hend⟩ := Option.isSome_iff_exists.1 hends
  rw [hend] at hfirst hvoid
  obtain rfl : i = 0 := Option.some.inj hfirst
  obtain ⟨g, rfl, hg⟩ := Past.verdict_eq_void_iff.1 (Option.some.inj hvoid)
  have hturns : restedScene.AtTurns (ComesToNothing "k") (cancelledProbe ++ [.turn]) := by
    have hthird : ComesToNothing "k" (restedScene.after
        [.submit (.call {} "k" { gate := some "g" } []), .turn, .turn]) := by
      refine hopens (i := 0) (exists_opens_of_grown rfl rfl ?_) ?_ ?_ <;> decide +kernel
    exact ⟨hidle rfl, hidle rfl, hthird, hidle rfl, hidle rfl, hidle rfl, .aborts hend hg, trivial⟩
  obtain ⟨p, hp, hopen⟩ :=
    (aborted_calls_leave_record restedScene (cancelledProbe ++ [.turn])).2.1 "k" hturns
  obtain rfl := hopen _ rfl rfl (by decide +kernel)
  have hdiscards := (aborted_calls_leave_record restedScene cancelledProbe).1 rfl 0 f g hend hg
  have hawaits := (aborted_calls_leave_record
    (restedScene.after [.submit (.call {} "k" {} [])]) []).2.2.1 0 _ _ rfl rfl (.starting rfl)
  have hgives := (aborted_calls_leave_record (restedScene.after waitingProbe) []).2.2.2 1 _ _ rfl
  exact ⟨⟨f, g, hend, hdiscards⟩, hp, hawaits, _, hgives⟩

end Schedule

end KeyedBreaker
