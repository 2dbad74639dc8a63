import KeyedBreaker.Proofs.Breaker.Likeness

namespace KeyedBreaker

def Event.isOfClient : Event → Bool
  | .clientRead _ | .clientWrite _ => true
  | _ => false

def Scene.shown (s : Scene) : List Event := s.events.filter fun e => !e.isOfClient

/-- The first scene is over a store with locks, which keeps records itself; in the second one the records
are with a client that works. They differ in nothing that breakers can tell. -/
structure Scene.Mirrors (s τ : Scene) : Prop where
  now : τ.now = s.now
  monotonic : τ.monotonic = s.monotonic
  lookup : ∀ key, τ.store.lookup key = s.store.lookup key
  locks : s.store.hasLocks = true ∧ τ.store.hasLocks = false
  reads : τ.faults .read = s.faults .read
  writes : τ.faults .write = s.faults .write
  client : τ.faults .clientRead = [] ∧ τ.faults .clientWrite = []
  shown : τ.shown = s.shown

namespace Scene

variable {s τ : Scene}

theorem shown_seeing (es : List Event) (s : Scene) :
    (s.seeing es).shown = es.filter (fun e => !e.isOfClient) ++ s.shown := by
  rw [shown, seeing_events, List.filter_append, shown]

theorem Mirrors.seeing (h : s.Mirrors τ) (es : List Event) : (s.seeing es).Mirrors (τ.seeing es) :=
  ⟨h.now, h.monotonic, h.lookup, h.locks, h.reads, h.writes, h.client, by
    rw [shown_seeing, shown_seeing, h.shown]⟩

theorem Mirrors.seeing_client (h : s.Mirrors τ) {es : List Event}
    (hes : ∀ e ∈ es, e.isOfClient = true) : s.Mirrors (τ.seeing es) := by
  refine ⟨h.now, h.monotonic, h.lookup, h.locks, h.reads, h.writes, h.client, ?_⟩
  have hnone : es.filter (fun e => !e.isOfClient) = [] :=
    List.filter_eq_nil_iff.2 fun e he => by simp [hes e he]
  rw [shown_seeing, hnone, h.shown]
  rfl

theorem Mirrors.keeping (h : s.Mirrors τ) (key : String) (r : Record) :
    (s.keeping key r).Mirrors (τ.keeping key r) := by
  refine ⟨h.now, h.monotonic, fun other => ?_, ?_, h.reads, h.writes, h.client, h.shown⟩
  · rw [keeping_store, keeping_store]
    by_cases hk : other = key
    · rw [hk, Store.lookup_kept, Store.lookup_kept]
    · rw [Store.lookup_kept_of_ne _ r hk, Store.lookup_kept_of_ne _ r hk, h.lookup]
  · rw [keeping_store, keeping_store, Store.hasLocks_kept, Store.hasLocks_kept]
    exact h.locks

theorem isOfClient_of_mem_readEvents {st : Store} {key : String} :
    ∀ e ∈ st.readEvents key, e.isOfClient = true := by
  intro e he
  cases st with
  | memory writes => cases he
  | shared keyPrefix client =>
      cases List.mem_singleton.1 he
      rfl

theorem isOfClient_of_mem_writeEvents {st : Store} {key : String} :
    ∀ e ∈ st.writeEvents key, e.isOfClient = true := by
  intro e he
  cases st with
  | memory writes => cases he
  | shared keyPrefix client =>
      cases List.mem_singleton.1 he
      rfl

end Scene

open Act

theorem mirrors_nextFault {access : Access} (h : access = .read ∨ access = .write) :
    (nextFault access).Respects Scene.Mirrors := by
  intro s τ hm
  have hf : τ.faults access = s.faults access := by
    rcases h with rfl | rfl
    · exact hm.reads
    · exact hm.writes
  rw [nextFault, play_get_bind, play_get_bind, hf]
  cases s.faults access with
  | nil => exact ⟨rfl, hm⟩
  | cons f fs =>
      refine ⟨rfl, hm.now, hm.monotonic, hm.lookup, hm.locks, ?_, ?_, ?_, hm.shown⟩
      · exact if_congr Iff.rfl rfl hm.reads
      · exact if_congr Iff.rfl rfl hm.writes
      · rcases h with rfl | rfl <;> exact hm.client

theorem mirrors_fetch (key : String) : (fetch key).Respects Scene.Mirrors := by
  intro s τ h
  have hs : (fetch key).play s = (s.store.lookup key, s) := by
    rw [fetch, play_get_bind]
    cases hst : s.store with
    | memory writes => rfl
    | shared =>
        have hlocks := h.locks.1
        rw [hst] at hlocks
        cases hlocks
  rw [hs, play_fetch key h.client.1]
  exact ⟨h.lookup key, h.seeing_client Scene.isOfClient_of_mem_readEvents⟩

theorem mirrors_keep (key : String) (r : Record) : (keep key r).Respects Scene.Mirrors := by
  intro s τ h
  have hs : (keep key r).play s = (.ok (), s.keeping key r) := by
    rw [keep, play_get_bind, Scene.keeping]
    cases hst : s.store with
    | memory writes => rfl
    | shared =>
        have hlocks := h.locks.1
        rw [hst] at hlocks
        cases hlocks
  rw [hs, play_keep key r h.client.2]
  exact ⟨rfl, (h.keeping key r).seeing_client Scene.isOfClient_of_mem_writeEvents⟩

theorem mirrors_emit (e : Event) : (emit e).Respects Scene.Mirrors := fun _ _ h => ⟨rfl, h.seeing [e]⟩

theorem mirrors_readRecord (key : String) : (readRecord key).Respects Scene.Mirrors := by
  refine (mirrors_emit _).bind fun _ => (mirrors_nextFault (.inl rfl)).bind fun fault => ?_
  split
  · exact respects_throw _
  · exact mirrors_fetch key

theorem mirrors_writeRecord (key : String) (r : Record) :
    (writeRecord key r).Respects Scene.Mirrors := by
  refine (mirrors_emit _).bind fun _ => (mirrors_nextFault (.inr rfl)).bind fun fault => ?_
  split
  · refine (mirrors_fetch key).bind fun x => ?_
    dsimp only
    split
    · exact (mirrors_keep key _).bind fun _ => respects_pure _
    · exact respects_throw _
  · exact respects_throw _
  · exact respects_throw _

/-- Breakers come to the same over both stores. -/
theorem mirrors_likeness (key : String) : Likeness key Scene.Mirrors where
  now h := h.now
  monotonic h := h.monotonic
  setNow h _ := ⟨rfl, h.monotonic, h.lookup, h.locks, h.reads, h.writes, h.client, h.shown⟩
  setMonotonic h _ := ⟨h.now, rfl, h.lookup, h.locks, h.reads, h.writes, h.client, h.shown⟩
  seeing h es := h.seeing es
  read := mirrors_readRecord key
  write := mirrors_writeRecord key

/-- A step that does not tell the stores apart: nobody else writes to the client, and the client works. -/
def Step.Portable : Step → Prop
  | .overwrite .. => False
  | .addFaults access _ => access = .read ∨ access = .write
  | _ => True

theorem Step.act?_mirrors {step : Step} {a : Act Answer} (h : step.act? = some a)
    (hstep : step.Portable) : a.Respects Scene.Mirrors := by
  cases step with
  | status b key =>
      cases h
      exact ((mirrors_likeness key).status b).map _
  | snapshot b key =>
      cases h
      exact ((mirrors_likeness key).load b).map _
  | resetIn b key =>
      cases h
      exact ((mirrors_likeness key).resetIn b).map _
  | advance seconds =>
      cases h
      exact ((mirrors_likeness "").advanceClock seconds).map _
  | setClock t =>
      cases h
      exact ((mirrors_likeness "").setClock t).map _
  | addFaults access faults =>
      cases h
      refine Respects.map (fun s τ hm => ?_) _
      refine ⟨rfl, hm.now, hm.monotonic, hm.lookup, hm.locks, ?_, ?_, ?_, hm.shown⟩
      · change (if Access.read = access then τ.faults .read ++ faults else τ.faults .read) =
          if Access.read = access then s.faults .read ++ faults else s.faults .read
        rw [hm.reads]
      · change (if Access.write = access then τ.faults .write ++ faults else τ.faults .write) =
          if Access.write = access then s.faults .write ++ faults else s.faults .write
        rw [hm.writes]
      · rcases hstep with rfl | rfl <;> exact hm.client
  | overwrite => exact hstep.elim
  | getRecord key =>
      cases h
      exact (mirrors_readRecord key).map _
  | setRecord key r =>
      cases h
      exact (mirrors_writeRecord key r).map _
  | call | force | release | cancel => cases h

end KeyedBreaker
