import KeyedBreaker.Proofs.Breaker.Likeness

namespace KeyedBreaker

def Scene.about (key : String) (s : Scene) : List Event := s.events.filter (·.key? = some key)

/-- The scenes agree on the clocks and on everything about a key: what is stored under it, what was ever
written there, and what was seen of it. No faults are laid, and all that the first one holds can be read. -/
structure Scene.Alongside (key : String) (s τ : Scene) : Prop where
  now : τ.now = s.now
  monotonic : τ.monotonic = s.monotonic
  quiet : s.Quiet ∧ τ.Quiet
  hasLocks : τ.store.hasLocks = s.store.hasLocks
  lookup : τ.store.lookup key = s.store.lookup key
  history : τ.store.history key = s.store.history key
  readable : ∀ k, ∃ x, s.store.lookup k = .ok x
  about : τ.about key = s.about key

def Scene.Aside (key : String) (τ s s' : Scene) : Prop := s' = s ∧ s.Alongside key τ

namespace Scene

variable {key other : String} {s τ : Scene} {es fs : List Event}

theorem about_seeing (es : List Event) (s : Scene) :
    (s.seeing es).about key = es.filter (·.key? = some key) ++ s.about key := List.filter_append ..

theorem Alongside.seeing (h : s.Alongside key τ)
    (hes : fs.filter (·.key? = some key) = es.filter (·.key? = some key)) :
    (s.seeing es).Alongside key (τ.seeing fs) where
  now := h.now
  monotonic := h.monotonic
  quiet := h.quiet
  hasLocks := h.hasLocks
  lookup := h.lookup
  history := h.history
  readable := h.readable
  about := by rw [about_seeing, about_seeing, hes, h.about]

theorem Alongside.seeing_other (h : s.Alongside key τ) (hes : ∀ e ∈ es, e.key? ≠ some key) :
    (s.seeing es).Alongside key τ := by
  have hnone : ([] : List Event).filter (·.key? = some key) = es.filter (·.key? = some key) :=
    (List.filter_eq_nil_iff.2 fun e he => by simpa using hes e he).symm
  exact h.seeing hnone

theorem readable_keeping (h : ∀ k, ∃ x, s.store.lookup k = .ok x) (key : String) (r : Record) :
    ∀ k, ∃ x, (s.keeping key r).store.lookup k = .ok x := by
  intro k
  rw [keeping_store]
  by_cases hk : k = key
  · subst hk
    exact ⟨_, Store.lookup_kept _ _⟩
  · rw [Store.lookup_kept_of_ne _ _ hk]
    exact h k

theorem Alongside.keeping (h : s.Alongside key τ) (r : Record) :
    (s.keeping key r).Alongside key (τ.keeping key r) where
  now := h.now
  monotonic := h.monotonic
  quiet := h.quiet
  hasLocks := by simp only [keeping_store, Store.hasLocks_kept, h.hasLocks]
  lookup := by simp only [keeping_store, Store.lookup_kept]
  history := by simp only [keeping_store, Store.history_kept, h.history]
  readable := readable_keeping h.readable key r
  about := h.about

theorem Alongside.keeping_other (h : s.Alongside key τ) (hne : key ≠ other) (r : Record) :
    (s.keeping other r).Alongside key τ where
  now := h.now
  monotonic := h.monotonic
  quiet := h.quiet
  hasLocks := by simp only [keeping_store, Store.hasLocks_kept, h.hasLocks]
  lookup := by rw [keeping_store, Store.lookup_kept_of_ne _ _ hne, h.lookup]
  history := by rw [keeping_store, Store.history_kept_of_ne _ _ hne, h.history]
  readable := readable_keeping h.readable other r
  about := h.about

end Scene

namespace Store

variable (st : Store) {key k : String}

theorem key?_of_mem_readEvents : ∀ e ∈ st.readEvents k, e.key? = none := by
  cases st <;> simp [readEvents, Event.key?]

theorem key?_of_mem_writeEvents : ∀ e ∈ st.writeEvents k, e.key? = none := by
  cases st <;> simp [writeEvents, Event.key?]

end Store

open Act

theorem Breaker.tell_respects {R : Scene → Scene → Prop} (b : Breaker) {o : Occurrence}
    (hemit : ∀ e : Event, e.key? = some o.key → (emit e).Respects R) : (b.tell o).Respects R := by
  have hnotice : ∀ {n}, Notice.ofOccurrence? o = some n → n.key = o.key := by
    intro n hn
    cases o <;> cases hn <;> rfl
  have hhear : ∀ (i : Nat) (l : Listener), (l.hear b.number i o).Respects R := by
    intro i l
    unfold Listener.hear
    split
    · refine (hemit _ rfl).bind fun _ => ?_
      split
      · exact respects_throw _
      · exact respects_pure _
    · split
      · exact hemit _ (congrArg some (hnotice ‹_›))
      · exact respects_pure _
  have hfrom : ∀ (ls : List Listener) (i : Nat), (b.tellFrom o i ls).Respects R := by
    intro ls
    induction ls with
    | nil => exact fun _ => respects_pure _
    | cons l ls ih =>
        intro i
        refine Respects.bind (Matches.tryCatch (hhear i l) fun f => ?_) fun _ => ih (i + 1)
        split
        · exact hemit _ rfl
        · exact respects_throw _
  exact hfrom b.listeners 0

section Alongside

variable {key : String} {s : Scene} {v : Int}

theorem filter_append_of_unnamed {es fs : List Event} (hes : ∀ e ∈ es, e.key? = none) :
    (es ++ fs).filter (·.key? = some key) = fs.filter (·.key? = some key) := by
  rw [List.filter_append, List.filter_eq_nil_iff.2 fun e he => by simp [hes e he]]
  rfl

theorem filter_writeSeen : (writeSeen s key v).filter (·.key? = some key) =
    [Event.storeWrite key v].filter (·.key? = some key) :=
  filter_append_of_unnamed s.store.key?_of_mem_readEvents

theorem alongside_readRecord (key : String) : (readRecord key).Respects (Scene.Alongside key) := by
  intro s τ h
  rw [play_readRecord key h.quiet.1, play_readRecord key h.quiet.2]
  refine ⟨h.lookup, h.seeing ?_⟩
  rw [filter_append_of_unnamed s.store.key?_of_mem_readEvents,
    filter_append_of_unnamed τ.store.key?_of_mem_readEvents]

theorem alongside_writeRecord (key : String) (r : Record) :
    (writeRecord key r).Respects (Scene.Alongside key) := by
  intro s τ h
  obtain ⟨x, hx⟩ := h.readable key
  have hx' := h.lookup.trans hx
  by_cases hv : r.version = Record.versionOf x
  · rw [play_writeRecord h.quiet.1 hx hv, play_writeRecord h.quiet.2 hx' hv]
    refine ⟨rfl, (h.keeping r.next).seeing ?_⟩
    rw [filter_append_of_unnamed s.store.key?_of_mem_writeEvents,
      filter_append_of_unnamed τ.store.key?_of_mem_writeEvents, filter_writeSeen, filter_writeSeen]
  · rw [play_writeRecord_stale h.quiet.1 hx hv, play_writeRecord_stale h.quiet.2 hx' hv]
    refine ⟨rfl, h.seeing ?_⟩
    rw [filter_writeSeen, filter_writeSeen]

/-- What breakers do for the key comes to the same in both scenes. -/
theorem alongside_likeness (key : String) : Likeness key (Scene.Alongside key) where
  now h := h.now
  monotonic h := h.monotonic
  setNow h _ := ⟨rfl, h.monotonic, h.quiet, h.hasLocks, h.lookup, h.history, h.readable, h.about⟩
  setMonotonic h _ := ⟨h.now, rfl, h.quiet, h.hasLocks, h.lookup, h.history, h.readable, h.about⟩
  seeing h _ := h.seeing rfl
  read := alongside_readRecord key
  write := alongside_writeRecord key

end Alongside

section Aside

variable {key other : String} {τ : Scene}

theorem Act.Respects.aside {α : Type} {a : Act α} (ha : a.Respects (Scene.Aside key τ)) {s : Scene}
    (h : s.Alongside key τ) : (a.play s).2.Alongside key τ := (ha s s ⟨rfl, h⟩).2.2

theorem respects_aside {α : Type} {a : Act α}
    (h : ∀ s, s.Alongside key τ → (a.play s).2.Alongside key τ) :
    a.Respects (Scene.Aside key τ) := by
  rintro s s' ⟨rfl, hs⟩
  exact ⟨rfl, rfl, h s' hs⟩

theorem aside_emit {e : Event} (he : e.key? ≠ some key) : (emit e).Respects (Scene.Aside key τ) :=
  respects_aside fun _ h => h.seeing_other fun _ he' => List.mem_singleton.1 he' ▸ he

theorem unnamed_or_other (hne : key ≠ other) {es : List Event} {e : Event}
    (hes : ∀ e ∈ es, e.key? = none) (he : e.key? = some other) :
    ∀ e' ∈ es ++ [e], e'.key? ≠ some key := by
  intro e' he' hk
  rcases List.mem_append.1 he' with he' | he'
  · rw [hes e' he'] at hk
    cases hk
  · rw [List.mem_singleton.1 he', he] at hk
    exact hne (Option.some.inj hk).symm

theorem aside_readRecord (hne : key ≠ other) : (readRecord other).Respects (Scene.Aside key τ) := by
  refine respects_aside fun s h => ?_
  rw [play_readRecord other h.quiet.1]
  exact h.seeing_other (unnamed_or_other hne s.store.key?_of_mem_readEvents rfl)

theorem aside_writeRecord (hne : key ≠ other) (r : Record) :
    (writeRecord other r).Respects (Scene.Aside key τ) := by
  refine respects_aside fun s h => ?_
  obtain ⟨x, hx⟩ := h.readable other
  have htried : ∀ e ∈ writeSeen s other r.version, e.key? ≠ some key :=
    unnamed_or_other hne s.store.key?_of_mem_readEvents rfl
  by_cases hv : r.version = Record.versionOf x
  · rw [play_writeRecord h.quiet.1 hx hv]
    refine (h.keeping_other hne r.next).seeing_other fun e he => ?_
    rcases List.mem_append.1 he with he | he
    · rw [s.store.key?_of_mem_writeEvents e he]
      exact fun hk => by cases hk
    · exact htried e he
  · rw [play_writeRecord_stale h.quiet.1 hx hv]
    exact h.seeing_other htried

theorem aside_accord (hne : key ≠ other) : Accord other (Scene.Aside key τ) where
  now h := h.1 ▸ rfl
  monotonic h := h.1 ▸ rfl
  emit _ _ hkey := aside_emit fun hk => hne (hkey key hk)
  read := aside_readRecord hne
  write := aside_writeRecord hne

theorem aside_twins (hne : key ≠ other) (b : Breaker) : b.Twins other (Scene.Aside key τ) b where
  number := rfl
  config := rfl
  policy := rfl
  fraction := rfl
  tell o ho := b.tell_respects fun e he => aside_emit fun hk => by
    rw [he, ho] at hk
    exact hne (Option.some.inj hk).symm

end Aside

namespace Step

def key? : Step → Option String
  | .call _ key _ _ | .force _ key _ | .status _ key | .snapshot _ key | .resetIn _ key
  | .getRecord key | .setRecord key _ => some key
  | .advance _ | .setClock _ | .addFaults .. | .overwrite .. | .release _ | .cancel _ => none

/-- A step of a breaker whose function makes no further steps and moves no clock, or a step that moves a
clock, opens a gate or cancels a task. -/
def Plain : Step → Prop
  | .call _ _ w inner => inner = [] ∧ w.advance = none ∧ w.monotonic = none
  | .addFaults .. | .overwrite .. | .getRecord _ | .setRecord .. => False
  | _ => True

variable {step : Step} {a : Act Answer} {key other : String} {τ : Scene}

theorem act?_alongside (h : step.act? = some a) (hstep : step.Plain) (hkey : ∀ k ∈ step.key?, k = key) :
    a.Respects (Scene.Alongside key) := by
  have hR := alongside_likeness key
  cases step with
  | status b k =>
      cases h
      obtain rfl := hkey k rfl
      exact (hR.status b).map _
  | snapshot b k =>
      cases h
      obtain rfl := hkey k rfl
      exact (hR.load b).map _
  | resetIn b k =>
      cases h
      obtain rfl := hkey k rfl
      exact (hR.resetIn b).map _
  | advance seconds =>
      cases h
      exact (hR.advanceClock seconds).map _
  | setClock t =>
      cases h
      exact (hR.setClock t).map _
  | addFaults | overwrite | getRecord | setRecord => exact hstep.elim
  | call | force | release | cancel => cases h

theorem act?_aside (h : step.act? = some a) (hstep : step.Plain) (hkey : step.key? = some other)
    (hne : key ≠ other) : a.Respects (Scene.Aside key τ) := by
  have hR : Accord other (Scene.Aside key τ) := aside_accord hne
  cases step with
  | status b k =>
      cases h
      cases hkey
      exact (hR.status (aside_twins hne b)).map _
  | snapshot b k =>
      cases h
      cases hkey
      exact (hR.load (aside_twins hne b)).map _
  | resetIn b k =>
      cases h
      cases hkey
      exact (hR.resetIn (aside_twins hne b)).map _
  | addFaults | overwrite | getRecord | setRecord => exact hstep.elim
  | _ => cases hkey <;> cases h

end Step

end KeyedBreaker
