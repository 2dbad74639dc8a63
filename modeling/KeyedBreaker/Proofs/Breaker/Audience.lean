import KeyedBreaker.Proofs.Breaker.Likeness

namespace KeyedBreaker

namespace Event

def heardBy? (breaker listener : Nat) : Event → Option Occurrence
  | .heard i j o => if i = breaker ∧ j = listener then some o else none
  | _ => none

def writtenBy? (breaker listener : Nat) : Event → Option Notice
  | .noted (.listener i j) n => if i = breaker ∧ j = listener then some n else none
  | _ => none

theorem isOfListeners_of_heardBy? {i j : Nat} {e : Event} (h : e.isOfListeners = false) :
    e.heardBy? i j = none ∧ e.writtenBy? i j = none := by
  cases e with
  | heard => cases h
  | noted speaker n =>
      cases speaker with
      | breaker => exact ⟨rfl, rfl⟩
      | listener => cases h
  | _ => exact ⟨rfl, rfl⟩

end Event

/-- Among the events, latest first, the listener of this number has been told of these occurrences and no
others, as far as it shows: one keeps a log, which leaves out successes. -/
def Listener.Told (i j : Nat) (es : List Event) (told : List Occurrence) : Listener → Prop
  | .showing _ => es.filterMap (Event.heardBy? i j) = told
  | .logging => es.filterMap (Event.writtenBy? i j) = told.filterMap Notice.ofOccurrence?

def Event.Silent (i j : Nat) (es : List Event) : Prop :=
  ∀ e ∈ es, e.heardBy? i j = none ∧ e.writtenBy? i j = none

open Act

namespace Listener

variable {i j : Nat} {es fs : List Event} {o : Occurrence} {told told' : List Occurrence} {l : Listener}

theorem told_of_silent (h : Event.Silent i j es) : l.Told i j es [] := by
  cases l with
  | showing => exact List.filterMap_eq_nil_iff.2 fun e he => (h e he).1
  | logging => exact List.filterMap_eq_nil_iff.2 fun e he => (h e he).2

theorem Told.append (h : l.Told i j es told) (h' : l.Told i j fs told') :
    l.Told i j (fs ++ es) (told' ++ told) := by
  cases l with
  | showing => exact (List.filterMap_append ..).trans (congrArg₂ _ h' h)
  | logging =>
      exact (List.filterMap_append ..).trans
        ((congrArg₂ _ h' h).trans (List.filterMap_append ..).symm)

theorem told_shows : l.Told i j (l.shows i j o) [o] := by
  cases l with
  | showing => simp [Told, shows, Event.heardBy?]
  | logging =>
      cases h : Notice.ofOccurrence? o <;> simp [Told, shows, Event.writtenBy?, h]

theorem silent_shows {n k : Nat} (h : n ≠ i ∨ k ≠ j) : Event.Silent n k (l.shows i j o) := by
  have hother : ¬ (i = n ∧ j = k) := fun he => h.elim (· he.1.symm) (· he.2.symm)
  intro e he
  obtain rfl | ⟨notice, -, rfl⟩ := eq_of_mem_shows he
  · exact ⟨if_neg hother, rfl⟩
  · exact ⟨rfl, if_neg hother⟩

theorem isOfListeners_shows : ∀ e ∈ l.shows i j o, e.isOfListeners = true := by
  intro e he
  obtain rfl | ⟨notice, -, rfl⟩ := eq_of_mem_shows he <;> rfl

end Listener

namespace Breaker

variable {b : Breaker} {o : Occurrence}

/-- A listener that raises ordinary failures at most stops nobody: it shows what it is told, and its
failure is noted. -/
theorem tellOne_shows (b : Breaker) (o : Occurrence) {l : Listener} (hl : l.Polite) (i : Nat) :
    ∃ notes, (b.tellOne o i l).Utters (.ok ()) (notes ++ l.shows b.number i o) ∧
      ∀ e ∈ notes, e = b.failureNote o := by
  obtain ⟨out, notes, hu, hnotes, rfl | ⟨f, -, hn, -⟩⟩ := b.tellOne_utters o i l
  · exact ⟨notes, hu, hnotes⟩
  · exact absurd hl hn

theorem tellFrom_told (b : Breaker) (o : Occurrence) (ls : List Listener) (hls : ∀ l ∈ ls, l.Polite)
    (i : Nat) :
    ∃ es, (b.tellFrom o i ls).Utters (.ok ()) es ∧ (∀ e ∈ es, e.isOfListeners = true) ∧
      (∀ j (l : Listener), ls[j]? = some l → l.Told b.number (i + j) es [o]) ∧
      ∀ n j, (n ≠ b.number ∨ j < i) → Event.Silent n j es := by
  induction ls generalizing i with
  | nil => exact ⟨[], utters_pure (), by simp, by simp, by simp [Event.Silent]⟩
  | cons l ls ih =>
      obtain ⟨notes, hu, hnotes⟩ := b.tellOne_shows o (hls l List.mem_cons_self) i
      obtain ⟨fs, hu', hfs, htold', hsilent'⟩ :=
        ih (fun l hl => hls l (List.mem_cons_of_mem _ hl)) (i + 1)
      have hquiet : ∀ n j, Event.Silent n j notes := fun n j e he => by
        rw [hnotes e he]
        exact ⟨rfl, rfl⟩
      have hsilent : ∀ n j, (n ≠ b.number ∨ j ≠ i) →
          Event.Silent n j (notes ++ l.shows b.number i o) := fun n j h e he =>
        (List.mem_append.1 he).elim (hquiet n j e) (Listener.silent_shows h e)
      refine ⟨fs ++ (notes ++ l.shows b.number i o), hu.bind_ok hu', fun e he => ?_,
        fun j l' hj => ?_, fun n j h e he => ?_⟩
      · rcases List.mem_append.1 he with he | he
        · exact hfs e he
        · rcases List.mem_append.1 he with he | he
          · rw [hnotes e he]
            rfl
          · exact Listener.isOfListeners_shows e he
      · cases j with
        | zero =>
            obtain rfl : l = l' := Option.some.inj hj
            have hself : l.Told b.number i (notes ++ l.shows b.number i o) [o] :=
              Listener.told_shows.append (Listener.told_of_silent (hquiet b.number i))
            exact hself.append (Listener.told_of_silent (hsilent' _ _ (.inr (Nat.lt_succ_self i))))
        | succ j =>
            have hj' := htold' j l' hj
            rw [Nat.add_right_comm i 1 j] at hj'
            exact (Listener.told_of_silent (hsilent _ _ (.inr (by omega)))).append hj'
      · rcases List.mem_append.1 he with he | he
        · exact hsilent' n j (h.imp id (Nat.lt_succ_of_lt)) e he
        · exact hsilent n j (h.imp id Nat.ne_of_lt) e he

def staffed (A : Nat → List Listener) (b : Breaker) : Breaker := { b with listeners := A b.number }

end Breaker

namespace Scene

def unheard (s : Scene) : List Event := s.events.filter fun e => !e.isOfListeners

def Informs (A : Nat → List Listener) (told : Nat → List Occurrence) (s : Scene) : Prop :=
  ∀ i j (l : Listener), (A i)[j]? = some l → l.Told i j s.events (told i)

/-- Scenes under two assignments of listeners. They differ in nothing but what is about listeners, and under
both every listener of a breaker has been told the same. -/
structure Echoes (A A' : Nat → List Listener) (s τ : Scene) : Prop where
  now : τ.now = s.now
  monotonic : τ.monotonic = s.monotonic
  store : τ.store = s.store
  faults : τ.faults = s.faults
  unheard : τ.unheard = s.unheard
  told : ∃ told, s.Informs A told ∧ τ.Informs A' told

variable {A A' : Nat → List Listener} {s τ : Scene} {es fs : List Event}

theorem unheard_seeing (es : List Event) (s : Scene) :
    (s.seeing es).unheard = es.filter (fun e => !e.isOfListeners) ++ s.unheard := by
  rw [unheard, seeing_events, List.filter_append, unheard]

theorem Informs.seeing {told : Nat → List Occurrence} (h : s.Informs A told) {e : Event}
    (he : e.isOfListeners = false) : (s.seeing [e]).Informs A told := by
  intro i j l hl
  have hsilent : Event.Silent i j [e] := fun e' he' => by
    rw [List.mem_singleton.1 he']
    exact Event.isOfListeners_of_heardBy? he
  exact (h i j l hl).append (Listener.told_of_silent hsilent)

end Scene

section Echoes

variable {A A' : Nat → List Listener} {s τ : Scene} {key : String}

theorem echoes_emit {e : Event} (he : e.isOfListeners = false) :
    (emit e).Respects (Scene.Echoes A A') := by
  intro s τ h
  obtain ⟨told, hs, hτ⟩ := h.told
  refine ⟨rfl, h.now, h.monotonic, h.store, h.faults, ?_, told, hs.seeing he, hτ.seeing he⟩
  rw [play_emit, play_emit, Scene.unheard_seeing, Scene.unheard_seeing, h.unheard]

theorem echoes_nextFault (access : Access) : (nextFault access).Respects (Scene.Echoes A A') := by
  intro s τ h
  rw [nextFault, play_get_bind, play_get_bind, h.faults]
  cases s.faults access with
  | nil => exact ⟨rfl, h⟩
  | cons f fs =>
      refine ⟨rfl, h.now, h.monotonic, h.store, ?_, h.unheard, h.told⟩
      exact congrArg (fun g b => if b = access then fs else g b) h.faults

theorem echoes_setStore {σ : Scene → Store} (hσ : ∀ s τ, Scene.Echoes A A' s τ → σ τ = σ s) :
    (modify fun s => { s with store := σ s } : Act Unit).Respects (Scene.Echoes A A') :=
  fun s τ h => ⟨rfl, h.now, h.monotonic, hσ s τ h, h.faults, h.unheard, h.told⟩

theorem echoes_meetClient (access : Access) (operation : String) :
    (meetClient access key operation).Respects (Scene.Echoes A A') := by
  refine (echoes_nextFault access).bind fun fault => ?_
  split
  · exact respects_throw _
  · exact respects_pure _

theorem echoes_fetch (key : String) : (fetch key).Respects (Scene.Echoes A A') := by
  intro s τ h
  rw [fetch, play_get_bind, play_get_bind, h.store]
  cases s.store with
  | memory writes => exact ⟨rfl, h⟩
  | shared keyPrefix client =>
      refine Matches.bind (echoes_emit rfl) (fun _ => ?_) s τ h
      refine (echoes_meetClient _ _).bind fun _ => ?_
      exact respects_of_still (fun s => play_answer key s _) fun _ _ _ => rfl

theorem echoes_keep (key : String) (r : Record) : (keep key r).Respects (Scene.Echoes A A') := by
  have hclient : ∀ keyPrefix (client : Client), (do
      emit (.clientWrite (keyPrefix ++ key))
      meetClient .clientWrite key "set"
      modify fun s => { s with
        store := .shared keyPrefix (client.write (keyPrefix ++ key) (some (.text r.encode))) } :
      Act Unit).Respects (Scene.Echoes A A') := fun keyPrefix client =>
    (echoes_emit rfl).bind fun _ => (echoes_meetClient _ _).bind fun _ =>
      echoes_setStore fun _ _ _ => rfl
  intro s τ h
  rw [keep, play_get_bind, play_get_bind, h.store]
  cases s.store with
  | memory writes => exact ⟨rfl, h.now, h.monotonic, rfl, h.faults, h.unheard, h.told⟩
  | shared keyPrefix client => exact hclient keyPrefix client s τ h

theorem echoes_readRecord (key : String) : (readRecord key).Respects (Scene.Echoes A A') := by
  refine (echoes_emit rfl).bind fun _ => (echoes_nextFault _).bind fun fault => ?_
  split
  · exact respects_throw _
  · exact echoes_fetch key

theorem echoes_writeRecord (key : String) (r : Record) :
    (writeRecord key r).Respects (Scene.Echoes A A') := by
  refine (echoes_emit rfl).bind fun _ => (echoes_nextFault _).bind fun fault => ?_
  split
  · refine (echoes_fetch key).bind fun x => ?_
    dsimp only
    split
    · exact (echoes_keep key _).bind fun _ => respects_pure _
    · exact respects_throw _
  · exact respects_throw _
  · exact respects_throw _

theorem echoes_accord (key : String) : Accord key (Scene.Echoes A A') where
  now h := h.now
  monotonic h := h.monotonic
  emit _ he _ := echoes_emit he
  read := echoes_readRecord key
  write := echoes_writeRecord key

theorem echoes_clockwise : Clockwise (Scene.Echoes A A') where
  setNow h _ := ⟨rfl, h.monotonic, h.store, h.faults, h.unheard, h.told⟩
  setMonotonic h _ := ⟨h.now, rfl, h.store, h.faults, h.unheard, h.told⟩

theorem echoes_tell (hA : ∀ i, ∀ l ∈ A i, l.Polite) (hA' : ∀ i, ∀ l ∈ A' i, l.Polite) (b : Breaker)
    (o : Occurrence) : ((b.staffed A).tell o).Matches (Scene.Echoes A A') ((b.staffed A').tell o) := by
  -- one more occurrence was told by this breaker
  have hinforms : ∀ {B : Nat → List Listener} (told : Nat → List Occurrence) {s : Scene}
      {es : List Event}, s.Informs B told →
      (∀ j (l : Listener), (B b.number)[j]? = some l → l.Told b.number (0 + j) es [o]) →
      (∀ n j, (n ≠ b.number ∨ j < 0) → Event.Silent n j es) →
      (s.seeing es).Informs B fun i => if i = b.number then o :: told i else told i := by
    intro B told s es hs hself hother i j l hl
    dsimp only
    split
    · rename_i hi
      subst hi
      have htold := hself j l hl
      rw [Nat.zero_add] at htold
      exact (hs _ j l hl).append htold
    · exact (hs i j l hl).append (Listener.told_of_silent (hother i j (.inl ‹_›)))
  have hnone : ∀ {es : List Event}, (∀ e ∈ es, e.isOfListeners = true) →
      es.filter (fun e => !e.isOfListeners) = [] := fun h =>
    List.filter_eq_nil_iff.2 fun e he => by simp [h e he]
  intro s τ h
  obtain ⟨told, hs, hτ⟩ := h.told
  obtain ⟨es, hu, hes, hself, hother⟩ := (b.staffed A).tellFrom_told o (A b.number) (hA _) 0
  obtain ⟨fs, hu', hfs, hself', hother'⟩ := (b.staffed A').tellFrom_told o (A' b.number) (hA' _) 0
  have hp : ((b.staffed A).tell o).play s = (.ok (), s.seeing es) := hu s
  have hp' : ((b.staffed A').tell o).play τ = (.ok (), τ.seeing fs) := hu' τ
  rw [hp, hp']
  refine ⟨rfl, h.now, h.monotonic, h.store, h.faults, ?_, _, hinforms told hs hself hother,
    hinforms told hτ hself' hother'⟩
  rw [Scene.unheard_seeing, Scene.unheard_seeing, hnone hes, hnone hfs, h.unheard]

theorem echoes_twins (hA : ∀ i, ∀ l ∈ A i, l.Polite) (hA' : ∀ i, ∀ l ∈ A' i, l.Polite) (b : Breaker) :
    (b.staffed A).Twins key (Scene.Echoes A A') (b.staffed A') :=
  ⟨rfl, rfl, rfl, rfl, fun o _ => echoes_tell hA hA' b o⟩

end Echoes

end KeyedBreaker
