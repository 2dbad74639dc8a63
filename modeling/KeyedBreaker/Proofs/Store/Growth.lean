import KeyedBreaker.Proofs.Store.Access

namespace KeyedBreaker

namespace Store

/-- Records were kept under a key, latest first, each over one of its own version. -/
inductive Grows (key : String) (st : Store) : List Record → Store → Prop
  | refl : Grows key st [] st
  | keep {rs : List Record} {st' : Store} {x : Option Record} {r : Record} :
      Grows key st rs st' → st'.lookup key = .ok x → r.version = Record.versionOf x →
        Grows key st (r.next :: rs) (st'.kept key r.next)

namespace Grows

variable {key other : String} {st st' st'' : Store} {rs rs' : List Record} {r : Record}
  {x y : Option Record}

theorem trans (h : Grows key st rs st') (h' : Grows key st' rs' st'') :
    Grows key st (rs' ++ rs) st'' := by
  induction h' with
  | refl => exact h
  | keep _ hx hv ih => exact .keep ih hx hv

theorem hasLocks (h : Grows key st rs st') : st'.hasLocks = st.hasLocks := by
  induction h with
  | refl => rfl
  | keep _ _ _ ih => rw [hasLocks_kept, ih]

theorem history (h : Grows key st rs st') : st'.history key = rs.map some ++ st.history key := by
  induction h with
  | refl => rfl
  | keep _ _ _ ih => rw [history_kept, ih, List.map_cons, List.cons_append]

theorem history_of_ne (h : Grows key st rs st') (hne : other ≠ key) :
    st'.history other = st.history other := by
  induction h with
  | refl => rfl
  | keep _ _ _ ih => rw [history_kept_of_ne _ _ hne, ih]

theorem lookup_of_ne (h : Grows key st rs st') (hne : other ≠ key) :
    st'.lookup other = st.lookup other := by
  induction h with
  | refl => rfl
  | keep _ _ _ ih => rw [lookup_kept_of_ne _ _ hne, ih]

theorem lookup_nil (h : Grows key st [] st') : st' = st := by
  cases h
  rfl

theorem lookup_cons (h : Grows key st (r :: rs) st') : st'.lookup key = .ok (some r) := by
  cases h with
  | keep h hx hv => exact lookup_kept _ _

theorem lookup (h : Grows key st rs st') (hx : st.lookup key = .ok x) :
    st'.lookup key = .ok (rs.head?.or x) := by
  cases rs with
  | nil => rw [h.lookup_nil, hx]; rfl
  | cons r rs => rw [h.lookup_cons]; rfl

theorem versionOf (h : Grows key st rs st') (hx : st.lookup key = .ok x)
    (hy : st'.lookup key = .ok y) : Record.versionOf y = Record.versionOf x + rs.length := by
  induction h generalizing y with
  | refl =>
      rw [hx] at hy
      cases hy
      simp
  | keep _ hz hv ih =>
      rw [lookup_kept] at hy
      cases hy
      have := ih hz
      simp only [List.length_cons, Nat.cast_add, Nat.cast_one]
      change _ + 1 = _
      omega

theorem versionOf_le (h : Grows key st rs st') (hx : st.lookup other = .ok x) :
    ∃ y, st'.lookup other = .ok y ∧ Record.versionOf x ≤ Record.versionOf y := by
  by_cases hk : other = key
  · subst hk
    have hy := h.lookup hx
    have hv := h.versionOf hx hy
    exact ⟨_, hy, by omega⟩
  · exact ⟨x, (h.lookup_of_ne hk).trans hx, le_rfl⟩

theorem readable (h : Grows key st (r :: rs) st') : ∃ x, st.lookup key = .ok x := by
  generalize hl : r :: rs = l at h
  induction h generalizing r rs with
  | refl => cases hl
  | @keep rs' st' x r' h hx _ ih =>
      cases rs' with
      | nil => exact ⟨x, h.lookup_nil ▸ hx⟩
      | cons r'' rs'' => exact ih rfl

theorem single (h : Grows key st [r.next] st') :
    ∃ x, st.lookup key = .ok x ∧ r.version = Record.versionOf x := by
  obtain ⟨x, hx⟩ := h.readable
  have hv : r.version + 1 = Record.versionOf x + 1 := h.versionOf hx h.lookup_cons
  exact ⟨x, hx, by omega⟩

end Grows

end Store

namespace Event

def startedKey? : Event → Option String
  | .started key => some key
  | _ => none

def isTry : Event → Bool
  | .storeWrite .. | .paused _ => true
  | .noted _ (.writeConflict ..) | .noted _ (.overwriteConflict ..) => true
  | _ => false

def Plain (e : Event) : Prop := e.startedKey? = none ∧ e.isTry = false

end Event

def tried (key : String) (rs : List Record) : List Event :=
  rs.map fun r => .storeWrite key (r.version - 1)

theorem tried_next (key : String) (r : Record) :
    tried key [r.next] = [.storeWrite key r.version] := by
  rw [tried, List.map_singleton, Record.next, Int.add_sub_cancel]

theorem tried_append (key : String) (rs rs' : List Record) :
    tried key (rs ++ rs') = tried key rs ++ tried key rs' := List.map_append

namespace Scene

/-- The keys of the functions that were started, latest first. -/
def starts (s : Scene) : List String := s.events.filterMap Event.startedKey?

def tries (s : Scene) : List Event := s.events.filter Event.isTry

/-- Between the scenes time stood still, no function was started, these records were kept, and these
writes were tried. -/
structure Leads (key : String) (rs : List Record) (es : List Event) (s s' : Scene) : Prop where
  now : s'.now = s.now
  monotonic : s'.monotonic = s.monotonic
  faults : s'.faults = s.faults
  store : s.store.Grows key rs s'.store
  starts : s'.starts = s.starts
  tries : s'.tries = es ++ s.tries

variable {key : String} {rs rs' : List Record} {es es' : List Event} {s s' s'' : Scene}

theorem starts_seeing (hs : ∀ e ∈ es, e.Plain) : (s.seeing es).starts = s.starts := by
  rw [Scene.starts, seeing_events, List.filterMap_append,
    List.filterMap_eq_nil_iff.2 fun e he => (hs e he).1]
  rfl

theorem tries_seeing (hs : ∀ e ∈ es, e.Plain) : (s.seeing es).tries = s.tries := by
  rw [Scene.tries, seeing_events, List.filter_append,
    List.filter_eq_nil_iff.2 fun e he => by rw [(hs e he).2]; exact Bool.false_ne_true]
  rfl

namespace Leads

theorem refl (key : String) (s : Scene) : s.Leads key [] [] s := ⟨rfl, rfl, rfl, .refl, rfl, rfl⟩

theorem trans (h : s.Leads key rs es s') (h' : s'.Leads key rs' es' s'') :
    s.Leads key (rs' ++ rs) (es' ++ es) s'' where
  now := h'.now.trans h.now
  monotonic := h'.monotonic.trans h.monotonic
  faults := h'.faults.trans h.faults
  store := h.store.trans h'.store
  starts := h'.starts.trans h.starts
  tries := by rw [h'.tries, h.tries, List.append_assoc]

theorem seeing (hs : ∀ e ∈ es, e.Plain) (key : String) (s : Scene) :
    s.Leads key [] [] (s.seeing es) :=
  ⟨rfl, rfl, rfl, .refl, starts_seeing hs, tries_seeing hs⟩

theorem quiet (h : s.Leads key rs es s') (hq : s.Quiet) : s'.Quiet := by
  intro a
  rw [h.faults]
  exact hq a

theorem lookup_eq (h : s.Leads key [] es s') (other : String) :
    s'.store.lookup other = s.store.lookup other := by
  rw [h.store.lookup_nil]

end Leads

/-- Between the scenes these records were kept, each by the first write that was tried. Time may have
passed and functions may have been started. -/
structure Gains (key : String) (rs : List Record) (s s' : Scene) : Prop where
  faults : s'.faults = s.faults
  store : s.store.Grows key rs s'.store
  tries : s'.tries = tried key rs ++ s.tries

structure Idle (s s' : Scene) : Prop where
  faults : s'.faults = s.faults
  store : s'.store = s.store
  starts : s'.starts = s.starts
  tries : s'.tries = s.tries

theorem Gains.trans (h : s.Gains key rs s') (h' : s'.Gains key rs' s'') :
    s.Gains key (rs' ++ rs) s'' where
  faults := h'.faults.trans h.faults
  store := h.store.trans h'.store
  tries := by rw [h'.tries, h.tries, tried_append, List.append_assoc]

theorem Gains.quiet (h : s.Gains key rs s') (hq : s.Quiet) : s'.Quiet := by
  intro a
  rw [h.faults]
  exact hq a

theorem Leads.gains (h : s.Leads key rs (tried key rs) s') : s.Gains key rs s' :=
  ⟨h.faults, h.store, h.tries⟩

theorem Leads.idle (h : s.Leads key [] [] s') : s.Idle s' :=
  ⟨h.faults, h.store.lookup_nil, h.starts, h.tries⟩

theorem Idle.refl (s : Scene) : s.Idle s := ⟨rfl, rfl, rfl, rfl⟩

theorem Idle.quiet (h : s.Idle s') (hq : s.Quiet) : s'.Quiet := by
  intro a
  rw [h.faults]
  exact hq a

theorem Idle.gains (h : s.Idle s') (key : String) : s.Gains key [] s' where
  faults := h.faults
  store := by
    rw [h.store]
    exact .refl
  tries := h.tries

end Scene

namespace Store

theorem plain_readEvents (st : Store) (key : String) : ∀ e ∈ st.readEvents key, e.Plain := by
  cases st <;> simp [readEvents, Event.Plain, Event.startedKey?, Event.isTry]

theorem plain_writeEvents (st : Store) (key : String) : ∀ e ∈ st.writeEvents key, e.Plain := by
  cases st <;> simp [writeEvents, Event.Plain, Event.startedKey?, Event.isTry]

end Store

namespace Act

variable {s : Scene} {key : String} {x : Option Record} {r : Record}

theorem readRecord_leads (hq : s.Quiet) (key : String) :
    ∃ s', (readRecord key).play s = (s.store.lookup key, s') ∧ s.Leads key [] [] s' := by
  refine ⟨_, play_readRecord key hq, .seeing ?_ key s⟩
  intro e he
  rcases List.mem_append.1 he with he | he
  · exact s.store.plain_readEvents key e he
  · rw [List.mem_singleton.1 he]
    exact ⟨rfl, rfl⟩

theorem leads_writeSeen (s : Scene) (key : String) (v : Int) :
    s.Leads key [] [.storeWrite key v] (s.seeing (writeSeen s key v)) := by
  rw [writeSeen, ← Scene.seeing_seeing]
  have h : s.Leads key [] [.storeWrite key v] (s.seeing [.storeWrite key v]) :=
    ⟨rfl, rfl, rfl, .refl, rfl, rfl⟩
  exact h.trans (.seeing (s.store.plain_readEvents key) key _)

theorem writeRecord_leads (hq : s.Quiet) (hx : s.store.lookup key = .ok x)
    (hv : r.version = Record.versionOf x) :
    ∃ s', (writeRecord key r).play s = (.ok r.next, s') ∧
      s.Leads key [r.next] (tried key [r.next]) s' := by
  refine ⟨_, play_writeRecord hq hx hv, ?_⟩
  rw [← Scene.seeing_seeing, tried_next]
  have h := leads_writeSeen s key r.version
  have hk : s.Leads key [r.next] [.storeWrite key r.version]
      ((s.keeping key r.next).seeing (writeSeen s key r.version)) :=
    ⟨h.now, h.monotonic, h.faults, .keep .refl hx hv, h.starts, h.tries⟩
  exact hk.trans (.seeing (s.store.plain_writeEvents key) key _)

theorem writeRecord_leads_stale (hq : s.Quiet) (hx : s.store.lookup key = .ok x)
    (hv : r.version ≠ Record.versionOf x) :
    ∃ s', (writeRecord key r).play s =
        (.error (.stale key r.version (Record.versionOf x)), s') ∧
      s.Leads key [] [.storeWrite key r.version] s' :=
  ⟨_, play_writeRecord_stale hq hx hv, leads_writeSeen s key r.version⟩

end Act

end KeyedBreaker
