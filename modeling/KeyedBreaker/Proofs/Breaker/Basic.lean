import KeyedBreaker.Breaker.Basic
import KeyedBreaker.Proofs.Record.Transition
import KeyedBreaker.Proofs.Store.Growth

namespace KeyedBreaker

def Event.isHearing : Event → Bool
  | .heard .. | .noted (.listener ..) _ => true
  | _ => false

def Listener.Polite : Listener → Prop
  | .showing failure? => ∀ o, ∀ f ∈ failure? o, f.isOrdinary = true
  | .logging => True

theorem Listener.polite_recording {raised : Option Failure} (hooks : List Hook)
    (h : ∀ f ∈ raised, f.isOrdinary = true) : (recording raised hooks).Polite := by
  intro o f hf
  dsimp only at hf
  split at hf
  · exact h f hf
  · cases hf

namespace Breaker

def Polite (b : Breaker) : Prop := ∀ l ∈ b.listeners, l.Polite

/-- The outcome is this result, unless a listener got in the way with a failure that is not
ordinary. -/
def Yields {α : Type} (b : Breaker) (out result : Except Failure α) : Prop :=
  out = result ∨ ∃ f, f.isOrdinary = false ∧ ¬ b.Polite ∧ out = .error f

def loaded (b : Breaker) (t : Instant) : Except Failure (Option Record) → Except Failure Record
  | .error f => .error f
  | .ok (some r) => .ok r
  | .ok none => (Record.entering b.config .closed t {}).mapError .time

end Breaker

open Act

namespace Listener

variable {i j : Nat} {o : Occurrence} {l : Listener} {e : Event}

def shows (i j : Nat) (o : Occurrence) : Listener → List Event
  | .showing _ => [.heard i j o]
  | .logging => ((Notice.ofOccurrence? o).map (.noted (.listener i j))).toList

theorem eq_of_mem_shows (h : e ∈ l.shows i j o) :
    e = .heard i j o ∨ ∃ n, Notice.ofOccurrence? o = some n ∧ e = .noted (.listener i j) n := by
  cases l with
  | showing => exact .inl (List.mem_singleton.1 h)
  | logging =>
      obtain ⟨n, hn, rfl⟩ := Option.map_eq_some_iff.1 (Option.mem_toList.1 h)
      exact .inr ⟨n, hn, rfl⟩

theorem reverse_shows (i j : Nat) (o : Occurrence) (l : Listener) :
    (l.shows i j o).reverse = l.shows i j o := by
  cases l with
  | showing => rfl
  | logging => cases o <;> rfl

theorem isHearing_of_mem_shows (h : e ∈ l.shows i j o) : e.isHearing = true := by
  obtain rfl | ⟨n, -, rfl⟩ := eq_of_mem_shows h <;> rfl

theorem plain_of_mem_shows (h : e ∈ l.shows i j o) : e.Plain := by
  obtain rfl | ⟨n, hn, rfl⟩ := eq_of_mem_shows h
  · exact ⟨rfl, rfl⟩
  · cases o <;> cases hn <;> exact ⟨rfl, rfl⟩

theorem hear_utters (i j : Nat) (o : Occurrence) (l : Listener) :
    ∃ out, (l.hear i j o).Utters out (l.shows i j o) ∧
      (out = .ok () ∨ ∃ f, out = .error f ∧ (l.Polite → f.isOrdinary = true)) := by
  cases l with
  | showing failure? =>
      have hu : (emit (.heard i j o)).Utters (.ok ()) [.heard i j o] := utters_emit _
      cases hf : failure? o with
      | none =>
          simp only [hear, hf]
          exact ⟨_, hu.bind_ok (utters_pure ()), .inl rfl⟩
      | some f =>
          simp only [hear, hf]
          exact ⟨_, hu.bind_ok (g := fun _ => throw f) (utters_throw f),
            .inr ⟨f, rfl, fun hl => hl o f hf⟩⟩
  | logging =>
      refine ⟨.ok (), ?_, .inl rfl⟩
      cases hn : Notice.ofOccurrence? o with
      | none =>
          simp only [hear, shows, hn]
          exact utters_pure ()
      | some n =>
          simp only [hear, shows, hn]
          exact utters_note _ n

end Listener

namespace Breaker

variable (b : Breaker)

def failureNote (b : Breaker) (o : Occurrence) : Event :=
  .noted (.breaker b.number) (.listenerFailed o.key o.hook)

def tellOne (b : Breaker) (o : Occurrence) (i : Nat) (l : Listener) : Act Unit :=
  tryCatch (l.hear b.number i o) fun f =>
    if f.isOrdinary then b.log (.listenerFailed o.key o.hook) else throw f

theorem tellOne_utters (o : Occurrence) (i : Nat) (l : Listener) :
    ∃ out notes, (b.tellOne o i l).Utters out (notes ++ l.shows b.number i o) ∧
      (∀ e ∈ notes, e = b.failureNote o) ∧
      (out = .ok () ∨ ∃ f, f.isOrdinary = false ∧ ¬ l.Polite ∧ out = .error f) := by
  obtain ⟨out, hu, rfl | ⟨f, rfl, hl⟩⟩ := Listener.hear_utters b.number i o l
  · exact ⟨.ok (), [], hu.tryCatch_ok _, by simp, .inl rfl⟩
  · by_cases hf : f.isOrdinary
    · have hnote : (if f.isOrdinary then b.log (.listenerFailed o.key o.hook) else throw f).Utters
          (.ok ()) [b.failureNote o] := by
        rw [if_pos hf]
        exact utters_note _ _
      exact ⟨.ok (), _, hu.tryCatch_error hnote, by simp, .inl rfl⟩
    · have hthrow : (if f.isOrdinary then b.log (.listenerFailed o.key o.hook) else throw f).Utters
          (.error f) [] := by
        rw [if_neg hf]
        exact utters_throw f
      exact ⟨.error f, _, hu.tryCatch_error hthrow, by simp,
        .inr ⟨f, Bool.eq_false_iff.2 hf, fun h => hf (hl h), rfl⟩⟩

/-- Listeners, numbered from `i` on, show in turn what they are told, until one gets in the way; all else
that is seen are notes that listeners failed. -/
theorem tellFrom_utters (o : Occurrence) (ls : List Listener) (i : Nat) :
    ∃ out es, (b.tellFrom o i ls).Utters out es ∧
      (∀ e ∈ es, e = b.failureNote o ∨ ∃ j, ∃ l : Listener, e ∈ l.shows b.number j o) ∧
      (out = .ok () → es.filter Event.isHearing =
        (ls.mapIdx fun j l => l.shows b.number (i + j) o).flatten.reverse) ∧
      (out = .ok () ∨ ∃ f, f.isOrdinary = false ∧ (¬ ∀ l ∈ ls, l.Polite) ∧ out = .error f) := by
  induction ls generalizing i with
  | nil => exact ⟨.ok (), [], utters_pure (), by simp, fun _ => rfl, .inl rfl⟩
  | cons l ls ih =>
      obtain ⟨out, notes, hu, hnotes, hout⟩ := b.tellOne_utters o i l
      obtain ⟨out', es', hu', hseen', htold', hout'⟩ := ih (i + 1)
      have hseen : ∀ e ∈ notes ++ l.shows b.number i o,
          e = b.failureNote o ∨ ∃ j, ∃ l : Listener, e ∈ l.shows b.number j o := fun e he =>
        (List.mem_append.1 he).imp (hnotes e) fun he => ⟨i, l, he⟩
      have htold : (notes ++ l.shows b.number i o).filter Event.isHearing =
          (l.shows b.number i o).reverse := by
        have hnone : notes.filter Event.isHearing = [] :=
          List.filter_eq_nil_iff.2 fun e he => by rw [hnotes e he]; exact Bool.false_ne_true
        rw [List.filter_append, hnone, l.reverse_shows, List.nil_append]
        exact List.filter_eq_self.2 fun e he => Listener.isHearing_of_mem_shows he
      rcases hout with rfl | ⟨f, hf, hl, rfl⟩
      · refine ⟨out', es' ++ (notes ++ l.shows b.number i o), hu.bind_ok hu', fun e he => ?_,
          fun hok => ?_, hout'.imp id ?_⟩
        · exact (List.mem_append.1 he).elim (hseen' e) (hseen e)
        · rw [List.filter_append, htold, htold' hok, List.mapIdx_cons, List.flatten_cons,
            List.reverse_append]
          simp only [Nat.add_zero, Nat.add_assoc, Nat.add_comm 1]
        · rintro ⟨f, hf, hp, he⟩
          exact ⟨f, hf, fun h => hp fun x hx => h x (List.mem_cons_of_mem _ hx), he⟩
      · exact ⟨.error f, _, hu.bind_error, hseen, fun h => (by cases h),
          .inr ⟨f, hf, fun h => hl (h _ List.mem_cons_self), rfl⟩⟩

/-- What the listeners make known of what they are told, latest first. -/
def tellings (b : Breaker) (o : Occurrence) : List Event :=
  (b.listeners.mapIdx fun j l => l.shows b.number j o).flatten.reverse

theorem tell_shows (o : Occurrence) :
    ∃ out es, (b.tell o).Utters out es ∧
      (∀ e ∈ es, e = b.failureNote o ∨ ∃ j, ∃ l : Listener, e ∈ l.shows b.number j o) ∧
      (out = .ok () → es.filter Event.isHearing = b.tellings o) ∧ b.Yields out (.ok ()) := by
  obtain ⟨out, es, hu, hseen, htold, hout⟩ := b.tellFrom_utters o b.listeners 0
  simp only [Nat.zero_add] at htold
  exact ⟨out, es, hu, hseen, htold, hout⟩

theorem tell_utters (o : Occurrence) :
    ∃ out es, (b.tell o).Utters out es ∧ (∀ e ∈ es, e.Plain) ∧ b.Yields out (.ok ()) := by
  obtain ⟨out, es, hu, hseen, -, hout⟩ := b.tell_shows o
  refine ⟨out, es, hu, fun e he => ?_, hout⟩
  obtain rfl | ⟨j, l, he⟩ := hseen e he
  · exact ⟨rfl, rfl⟩
  · exact Listener.plain_of_mem_shows he

theorem announce_utters (key : String) (old new : Status) :
    ∃ out es, (b.announce key old new).Utters out es ∧ (∀ e ∈ es, e.Plain) ∧ b.Yields out (.ok ()) := by
  obtain ⟨out, es, hu, hes, hout⟩ := b.tell_utters (.transition key old new)
  refine ⟨out, _, (utters_note (.breaker b.number) _).bind_ok hu, ?_, hout⟩
  intro e he
  rcases List.mem_append.1 he with he | he
  · exact hes e he
  · rw [List.mem_singleton.1 he]
    exact ⟨rfl, rfl⟩

variable {b} {s : Scene} {key : String} {x : Option Record} {r : Record}

theorem play_asStoreFailure {α : Type} {operation : String} {a : Act α} {out : Except Failure α}
    {s' : Scene} (h : a.play s = (out, s')) (hout : ∀ f, out = .error f → f.isA .store = true) :
    (asStoreFailure key operation a).play s = (out, s') := by
  cases out with
  | ok y => exact play_tryCatch_ok s h _
  | error f =>
      rw [asStoreFailure, play_tryCatch_error s h, hout f rfl]
      rfl

theorem isA_store_of_lookup {st : Store} {f : Failure} (h : st.lookup key = .error f) :
    f.isA .store = true := by
  cases st with
  | memory writes => cases h
  | shared keyPrefix client =>
      rw [Store.lookup_shared] at h
      unfold Store.answer at h
      split at h
      · cases h
      · split at h
        · cases h
        · cases h
          rfl

theorem play_load {s₁ : Scene} (b : Breaker) (h : (readRecord key).play s = (.ok x, s₁))
    (hn : s₁.now = s.now) : (b.load key).play s = (b.loaded s.now (.ok x), s₁) := by
  have hr : (asStoreFailure key "get" (readRecord key)).play s = (.ok x, s₁) :=
    play_tryCatch_ok s h _
  rw [load, play_bind_ok s hr]
  cases x with
  | some r => rfl
  | none =>
      dsimp only
      rw [play_bind_ok s₁ (play_now s₁), play_ofTime, hn]
      rfl

theorem load_leads (b : Breaker) (hq : s.Quiet) (key : String) :
    ∃ s', (b.load key).play s = (b.loaded s.now (s.store.lookup key), s') ∧
      s.Leads key [] [] s' := by
  obtain ⟨s', hr, hl⟩ := readRecord_leads hq key
  refine ⟨s', ?_, hl⟩
  cases hx : s.store.lookup key with
  | error f =>
      have hf : (asStoreFailure key "get" (readRecord key)).play s = (.error f, s') :=
        hx ▸ play_asStoreFailure hr fun g hg => isA_store_of_lookup hg
      exact play_bind_error s hf _
  | ok x =>
      rw [hx] at hr
      exact play_load b hr hl.now

theorem entered_of_loaded {t : Instant} (h : b.loaded t (.ok none) = .ok r) :
    Record.Entered b.config .closed t {} r := by
  unfold loaded at h
  cases he : Record.entering b.config .closed t {} with
  | error e => rw [he] at h; cases h
  | ok e =>
      rw [he] at h
      cases h
      exact Record.entered_of_entering he

theorem loaded_cases {t : Instant} (h : b.loaded t (.ok x) = .ok r) :
    x = some r ∨ x = none ∧ Record.Entered b.config .closed t {} r := by
  cases x with
  | some r' => exact .inl (congrArg some (Except.ok.inj h))
  | none => exact .inr ⟨rfl, entered_of_loaded h⟩

theorem versionOf_loaded {t : Instant} (h : b.loaded t (.ok x) = .ok r) :
    r.version = Record.versionOf x := by
  obtain rfl | ⟨rfl, hent⟩ := loaded_cases h
  · rfl
  · exact hent.version

theorem write_leads (hq : s.Quiet) (hx : s.store.lookup key = .ok x)
    (hv : r.version = Record.versionOf x) :
    ∃ s', (write key r).play s = (.ok r.next, s') ∧
      s.Leads key [r.next] (tried key [r.next]) s' := by
  obtain ⟨s', hp, hl⟩ := writeRecord_leads hq hx hv
  exact ⟨s', play_asStoreFailure hp (fun _ hf => nomatch hf), hl⟩

theorem write_leads_stale (hq : s.Quiet) (hx : s.store.lookup key = .ok x)
    (hv : r.version ≠ Record.versionOf x) :
    ∃ s', (write key r).play s = (.error (.stale key r.version (Record.versionOf x)), s') ∧
      s.Leads key [] [.storeWrite key r.version] s' := by
  obtain ⟨s', hp, hl⟩ := writeRecord_leads_stale hq hx hv
  refine ⟨s', play_asStoreFailure hp ?_, hl⟩
  intro f hf
  cases hf
  rfl

theorem save_leads (b : Breaker) (hq : s.Quiet) (hx : s.store.lookup key = .ok x)
    (hv : r.version = Record.versionOf x) :
    ∃ s', (b.save key r).play s = (.ok r.next, s') ∧
      s.Leads key [r.next] (tried key [r.next]) s' := by
  obtain ⟨s', hp, hl⟩ := write_leads hq hx hv
  exact ⟨s', play_tryCatch_ok s hp _, hl⟩

def conflictNotice (b : Breaker) (key : String) (version stored : Int) : Event :=
  .noted (.breaker b.number) (.writeConflict key version stored)

theorem save_leads_stale (b : Breaker) (hq : s.Quiet) (hx : s.store.lookup key = .ok x)
    (hv : r.version ≠ Record.versionOf x) :
    ∃ s', (b.save key r).play s = (.ok r, s') ∧
      s.Leads key [] [b.conflictNotice key r.version (Record.versionOf x),
        .storeWrite key r.version] s' := by
  obtain ⟨s', hp, hl⟩ := write_leads_stale hq hx hv
  let notice := b.conflictNotice key r.version (Record.versionOf x)
  refine ⟨s'.seeing [notice], ?_, ?_⟩
  · rw [save, play_tryCatch_error s hp]
    rfl
  · have hn : s'.Leads key [] [notice] (s'.seeing [notice]) := ⟨rfl, rfl, rfl, .refl, rfl, rfl⟩
    exact hl.trans hn

/-- The transition that is due, with the record after it. -/
def change (b : Breaker) (t : Instant) (r : Record) : Except Failure (Option (Status × Record)) :=
  match Record.due b.config r.status t r with
  | .error f => .error f
  | .ok none => .ok none
  | .ok (some target) =>
    match b.enter target t r with
    | .error e => .error (.time e)
    | .ok entered => .ok (some (target, entered))

theorem enter_eq_ok {target : Status} {t : Instant} {e : Record} (h : b.enter target t r = .ok e) :
    ∃ entered, Record.Entered b.config target t r entered ∧
      e = { entered with previousStatus := some r.status } := by
  unfold enter at h
  cases he : Record.entering b.config target t r with
  | error f => rw [he] at h; cases h
  | ok entered =>
      rw [he] at h
      cases h
      exact ⟨entered, Record.entered_of_entering he, rfl⟩

theorem change_eq_some {t : Instant} {target : Status} {e : Record}
    (h : b.change t r = .ok (some (target, e))) :
    Record.due b.config r.status t r = .ok (some target) ∧ b.enter target t r = .ok e := by
  unfold change at h
  split at h
  · cases h
  · cases h
  · rename_i d hd
    split at h
    · cases h
    · rename_i e' he
      cases h
      exact ⟨hd, he⟩

theorem change_of_due_none {t : Instant} (h : Record.due b.config r.status t r = .ok none) :
    b.change t r = .ok none := by
  rw [change, h]

theorem version_change {t : Instant} {target : Status} {e : Record}
    (h : b.change t r = .ok (some (target, e))) : e.version = r.version := by
  obtain ⟨entered, hent, rfl⟩ := enter_eq_ok (change_eq_some h).2
  exact hent.version

theorem advance_of_error {saving : Bool} {f : Failure} (h : b.change s.now r = .error f) :
    (b.advance key r saving).play s = (.error f, s) := by
  rw [advance, play_bind_ok s (play_now s)]
  unfold change at h
  cases hd : Record.due b.config r.status s.now r with
  | error g =>
      rw [hd] at h
      cases h
      exact play_bind_error s (play_ofExcept s _) _
  | ok o =>
      rw [play_bind_ok s (play_ofExcept s (.ok o))]
      cases o with
      | none => rw [hd] at h; cases h
      | some target =>
          rw [hd] at h
          dsimp only at h ⊢
          cases he : b.enter target s.now r with
          | error e =>
              rw [he] at h
              cases h
              exact play_bind_error s (play_ofTime s (.error e)) _
          | ok e => rw [he] at h; cases h

theorem advance_of_none {saving : Bool} (h : b.change s.now r = .ok none) :
    (b.advance key r saving).play s = (.ok r, s) := by
  unfold change at h
  rw [advance, play_bind_ok s (play_now s)]
  cases hd : Record.due b.config r.status s.now r with
  | error f => rw [hd] at h; cases h
  | ok o =>
      rw [play_bind_ok s (play_ofExcept s (.ok o))]
      cases o with
      | none => rfl
      | some target =>
          rw [hd] at h
          dsimp only at h
          cases he : b.enter target s.now r with
          | error e => rw [he] at h; cases h
          | ok e => rw [he] at h; cases h

theorem advance_of_some {saving : Bool} {target : Status} {e : Record}
    (h : b.change s.now r = .ok (some (target, e))) :
    (b.advance key r saving).play s =
      (do
        let e ← if saving then b.save key e else pure e
        b.announce key r.status target
        pure e : Act Record).play s := by
  unfold change at h
  rw [advance, play_bind_ok s (play_now s)]
  cases hd : Record.due b.config r.status s.now r with
  | error f => rw [hd] at h; cases h
  | ok o =>
      rw [play_bind_ok s (play_ofExcept s (.ok o))]
      cases o with
      | none => rw [hd] at h; cases h
      | some d =>
          rw [hd] at h
          dsimp only at h
          cases he : b.enter d s.now r with
          | error g => rw [he] at h; cases h
          | ok e' =>
              rw [he] at h
              cases h
              dsimp only
              rw [he, play_bind_ok s (play_ofTime s (.ok e))]

def renewed (b : Breaker) (t : Instant) (r : Record) : Except Failure Record :=
  (b.change t r).map fun change => (change.map (·.2)).getD r

theorem renewed_cases {t : Instant} {e : Record} (h : b.renewed t r = .ok e) :
    (b.change t r = .ok none ∧ e = r) ∨ ∃ target, b.change t r = .ok (some (target, e)) := by
  unfold renewed at h
  cases hc : b.change t r with
  | error f => rw [hc] at h; cases h
  | ok o =>
      rw [hc] at h
      cases o with
      | none =>
          cases h
          exact .inl ⟨rfl, rfl⟩
      | some d =>
          cases h
          exact .inr ⟨d.1, rfl⟩

theorem version_renewed {t : Instant} {e : Record} (h : b.renewed t r = .ok e) :
    e.version = r.version := by
  rcases renewed_cases h with ⟨-, rfl⟩ | ⟨target, hc⟩
  · rfl
  · exact version_change hc

theorem Yields.of_polite {α : Type} {out result : Except Failure α} (h : b.Yields out result)
    (hb : b.Polite) : out = result := by
  rcases h with h | ⟨f, -, hn, -⟩
  · exact h
  · exact absurd hb hn

theorem announce_then {α : Type} (b : Breaker) (old new : Status) (v : α) (s : Scene)
    (key : String) :
    ∃ out s', (do b.announce key old new; pure v : Act α).play s = (out, s') ∧ b.Yields out (.ok v) ∧
      s.Leads key [] [] s' := by
  obtain ⟨told, es, hu, hes, rfl | ⟨f, hf, hb, rfl⟩⟩ := b.announce_utters key old new
  · exact ⟨.ok v, s.seeing es, play_bind_ok s (hu s) _, .inl rfl, .seeing hes key s⟩
  · exact ⟨.error f, s.seeing es, play_bind_error s (hu s) _, .inr ⟨f, hf, hb, rfl⟩,
      .seeing hes key s⟩

theorem advance_unsaved (b : Breaker) (key : String) (r : Record) (s : Scene) :
    ∃ out s', (b.advance key r false).play s = (out, s') ∧ s.Leads key [] [] s' ∧
      ((∃ f, b.renewed s.now r = .error f ∧ out = .error f) ∨
        (∃ e, b.renewed s.now r = .ok e ∧ out = .ok e) ∨
        ∃ change f, b.change s.now r = .ok (some change) ∧ f.isOrdinary = false ∧ ¬ b.Polite ∧
          out = .error f) := by
  cases h : b.change s.now r with
  | error f =>
      exact ⟨.error f, s, advance_of_error h, .refl key s, .inl ⟨f, by rw [renewed, h]; rfl, rfl⟩⟩
  | ok o =>
      cases o with
      | none =>
          exact ⟨.ok r, s, advance_of_none h, .refl key s,
            .inr (.inl ⟨r, by rw [renewed, h]; rfl, rfl⟩)⟩
      | some d =>
          obtain ⟨target, e⟩ := d
          obtain ⟨out, s', hp, hg, hl⟩ := b.announce_then r.status target e s key
          refine ⟨out, s', ?_, hl, ?_⟩
          · rw [advance_of_some h]
            exact hp
          · rcases hg with rfl | ⟨f, hf, hb, rfl⟩
            · exact .inr (.inl ⟨e, by rw [renewed, h]; rfl, rfl⟩)
            · exact .inr (.inr ⟨_, f, rfl, hf, hb, rfl⟩)

theorem advance_saved (b : Breaker) (hq : s.Quiet) (hx : s.store.lookup key = .ok x)
    (hv : r.version = Record.versionOf x) :
    ∃ out s', (b.advance key r true).play s = (out, s') ∧
      ((∃ f, b.change s.now r = .error f ∧ out = .error f ∧ s' = s) ∨
        (b.change s.now r = .ok none ∧ out = .ok r ∧ s' = s) ∨
        ∃ target e, b.change s.now r = .ok (some (target, e)) ∧ b.Yields out (.ok e.next) ∧
            s.Leads key [e.next] (tried key [e.next]) s') := by
  cases h : b.change s.now r with
  | error f => exact ⟨.error f, s, advance_of_error h, .inl ⟨f, rfl, rfl, rfl⟩⟩
  | ok o =>
      cases o with
      | none => exact ⟨.ok r, s, advance_of_none h, .inr (.inl ⟨rfl, rfl, rfl⟩)⟩
      | some d =>
          obtain ⟨target, e⟩ := d
          have he : e.version = Record.versionOf x := (version_change h).trans hv
          obtain ⟨s₁, hs, hl⟩ := b.save_leads hq hx he
          obtain ⟨out, s', hp, hg, hl'⟩ := b.announce_then r.status target e.next s₁ key
          refine ⟨out, s', ?_, .inr (.inr ⟨target, e, rfl, hg, hl.trans hl'⟩)⟩
          rw [advance_of_some h, if_pos rfl, play_bind_ok s hs]
          exact hp

end Breaker

end KeyedBreaker
