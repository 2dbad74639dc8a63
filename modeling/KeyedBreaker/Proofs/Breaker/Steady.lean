import KeyedBreaker.Proofs.Breaker.Control
import KeyedBreaker.Proofs.Breaker.Call

namespace KeyedBreaker

namespace Event

def isAccess : Event → Bool
  | .storeRead _ | .storeWrite .. | .clientRead _ | .clientWrite _ => true
  | _ => false

def isOfStore : Event → Bool
  | .storeRead _ | .storeWrite .. | .clientRead _ | .clientWrite _ | .paused _ => true
  | .noted (.breaker _) (.writeConflict ..) | .noted (.breaker _) (.overwriteConflict ..) => true
  | _ => false

theorem isOfStore_of_isAccess {e : Event} (h : e.isAccess = true) : e.isOfStore = true := by
  cases e <;> first | rfl | cases h

def isTalk : Event → Bool
  | .noted .. | .heard .. => true
  | _ => false

end Event

structure AccessSteady (R : Scene → Scene → Prop) : Prop where
  refl : ∀ s, R s s
  trans : ∀ {s s' s''}, R s s' → R s' s'' → R s s''
  accessing : ∀ s {e : Event}, e.isAccess = true → R s (s.seeing [e])
  meeting : ∀ (s : Scene) {access f fs}, s.faults access = f :: fs →
    R s { s with faults := fun b => if b = access then fs else s.faults b }
  storing : ∀ s st, R s { s with store := st }

structure StoreSteady (R : Scene → Scene → Prop) : Prop where
  refl : ∀ s, R s s
  trans : ∀ {s s' s''}, R s s' → R s' s'' → R s s''
  seeing : ∀ s {e : Event}, e.isOfStore = true → R s (s.seeing [e])
  meeting : ∀ (s : Scene) {access f fs}, s.faults access = f :: fs →
    R s { s with faults := fun b => if b = access then fs else s.faults b }
  storing : ∀ s st, R s { s with store := st }

theorem StoreSteady.toAccessSteady {R : Scene → Scene → Prop} (h : StoreSteady R) : AccessSteady R where
  refl := h.refl
  trans := h.trans
  accessing s _ he := h.seeing s (Event.isOfStore_of_isAccess he)
  meeting := h.meeting
  storing := h.storing

structure BreakerSteady (R : Scene → Scene → Prop) : Prop extends StoreSteady R where
  talking : ∀ s {e : Event}, e.isTalk = true → R s (s.seeing [e])

theorem BreakerSteady.toAccessSteady {R : Scene → Scene → Prop} (h : BreakerSteady R) :
    AccessSteady R := h.toStoreSteady.toAccessSteady

namespace Act

variable {α β : Type} {R : Scene → Scene → Prop}

/-- The scene in which the action ends is related to the one in which it starts. -/
def Keeps (R : Scene → Scene → Prop) (a : Act α) : Prop := ∀ s, R s (a.play s).2

theorem Keeps.bind (hR : AccessSteady R) {a : Act α} {g : α → Act β} (ha : a.Keeps R)
    (hg : ∀ x, (g x).Keeps R) : (a >>= g).Keeps R := by
  intro s
  have h := ha s
  rw [play_bind]
  rcases hp : a.play s with ⟨f | x, s'⟩ <;> rw [hp] at h
  · exact h
  · exact hR.trans h (hg x s')

theorem Keeps.tryCatch (hR : AccessSteady R) {a : Act α} {g : Failure → Act α} (ha : a.Keeps R)
    (hg : ∀ f, (g f).Keeps R) : (tryCatch a g).Keeps R := by
  intro s
  have h := ha s
  rw [play_tryCatch]
  rcases hp : a.play s with ⟨f | x, s'⟩ <;> rw [hp] at h
  · exact hR.trans h (hg f s')
  · exact h

theorem Keeps.map {a : Act α} (ha : a.Keeps R) (g : α → β) : (g <$> a).Keeps R := fun s => by
  rw [play_map]
  exact ha s

theorem Keeps.discard {a : Act α} (ha : a.Keeps R) : (discard a : Act Unit).Keeps R := fun s => by
  rw [play_discard]
  exact ha s

section Access

variable (hR : AccessSteady R)
include hR

theorem keeps_of_still {a : Act α} (h : ∀ s, (a.play s).2 = s) : a.Keeps R := fun s => by
  rw [h]
  exact hR.refl s

theorem keeps_pure (x : α) : (pure x : Act α).Keeps R := keeps_of_still hR fun _ => rfl

theorem keeps_throw (f : Failure) : (throw f : Act α).Keeps R := keeps_of_still hR fun _ => rfl

theorem keeps_get : (get : Act Scene).Keeps R := keeps_of_still hR fun _ => rfl

theorem keeps_now : now.Keeps R := keeps_of_still hR fun _ => rfl

theorem keeps_ofExcept (x : Except Failure α) : (ofExcept x : Act α).Keeps R :=
  keeps_of_still hR fun s => by rw [play_ofExcept]

theorem keeps_ofTime (x : Except TimeError α) : (ofTime x).Keeps R := keeps_ofExcept hR _

theorem keeps_emit {e : Event} (h : e.isAccess = true) : (emit e).Keeps R := fun s => hR.accessing s h

theorem keeps_nextFault (access : Access) : (nextFault access).Keeps R := by
  intro s
  rw [nextFault, play_get_bind]
  cases hf : s.faults access with
  | nil => exact hR.refl s
  | cons f fs => exact hR.meeting s hf

theorem keeps_meetClient (access : Access) (key operation : String) :
    (meetClient access key operation).Keeps R := by
  refine (keeps_nextFault hR access).bind hR fun fault => ?_
  split
  · exact keeps_throw hR _
  · exact keeps_pure hR _

theorem keeps_fetch (key : String) : (fetch key).Keeps R := by
  refine (keeps_get hR).bind hR fun s => ?_
  split
  · exact keeps_pure hR _
  · refine (keeps_emit hR rfl).bind hR fun _ => (keeps_meetClient hR _ _ _).bind hR fun _ => ?_
    split
    · exact keeps_pure hR _
    · split
      · exact keeps_pure hR _
      · exact keeps_throw hR _

theorem keeps_keep (key : String) (r : Record) : (keep key r).Keeps R := by
  refine (keeps_get hR).bind hR fun s => ?_
  split
  · exact fun s' => hR.storing s' _
  · refine (keeps_emit hR rfl).bind hR fun _ => (keeps_meetClient hR _ _ _).bind hR fun _ => ?_
    exact fun s' => hR.storing s' _

theorem keeps_readRecord (key : String) : (readRecord key).Keeps R := by
  refine (keeps_emit hR rfl).bind hR fun _ => (keeps_nextFault hR _).bind hR fun fault => ?_
  split
  · exact keeps_throw hR _
  · exact keeps_fetch hR key

theorem keeps_writeRecord (key : String) (r : Record) : (writeRecord key r).Keeps R := by
  refine (keeps_emit hR rfl).bind hR fun _ => (keeps_nextFault hR _).bind hR fun fault => ?_
  split
  · refine (keeps_fetch hR key).bind hR fun x => ?_
    dsimp only
    split
    · exact (keeps_keep hR key _).bind hR fun _ => keeps_pure hR _
    · exact keeps_throw hR _
  · exact keeps_throw hR _
  · exact keeps_throw hR _

end Access

end Act

open Act

namespace Breaker

variable {R : Scene → Scene → Prop} (b : Breaker) (key : String)

section Access

variable (hR : AccessSteady R)
include hR

theorem keeps_asStoreFailure {α : Type} {operation : String} {a : Act α} (ha : a.Keeps R) :
    (asStoreFailure key operation a).Keeps R := ha.tryCatch hR fun _ => keeps_throw hR _

theorem keeps_load : (b.load key).Keeps R := by
  refine (keeps_asStoreFailure key hR (keeps_readRecord hR key)).bind hR fun x => ?_
  split
  · exact keeps_pure hR _
  · exact (keeps_now hR).bind hR fun _ => keeps_ofTime hR _

theorem keeps_write (r : Record) : (write key r).Keeps R :=
  keeps_asStoreFailure key hR (keeps_writeRecord hR key r)

theorem keeps_overwriteOnce (target : Status) : (b.overwriteOnce key target).Keeps R := by
  refine (keeps_load b key hR).bind hR fun r => (keeps_now hR).bind hR fun t => ?_
  exact (keeps_ofTime hR _).bind hR fun e => (keeps_write key hR _).bind hR fun _ => keeps_pure hR _

theorem keeps_tell {o : Occurrence} (hheard : ∀ s i j, R s (s.seeing [.heard i j o]))
    (hnoted : ∀ s i j n, Notice.ofOccurrence? o = some n → R s (s.seeing [.noted (.listener i j) n]))
    (hfailed : ∀ s i, R s (s.seeing [.noted (.breaker i) (.listenerFailed o.key o.hook)])) :
    (b.tell o).Keeps R := by
  have hhear : ∀ (j : Nat) (l : Listener), (l.hear b.number j o).Keeps R := by
    intro j l
    unfold Listener.hear
    split
    · refine Keeps.bind hR (fun s => hheard s _ _) fun _ => ?_
      split
      · exact keeps_throw hR _
      · exact keeps_pure hR _
    · split
      · exact fun s => hnoted s _ _ _ ‹_›
      · exact keeps_pure hR _
  have hfrom : ∀ (ls : List Listener) (j : Nat), (b.tellFrom o j ls).Keeps R := by
    intro ls
    induction ls with
    | nil => exact fun _ => keeps_pure hR _
    | cons l ls ih =>
        intro j
        refine ((hhear j l).tryCatch hR fun f => ?_).bind hR fun _ => ih (j + 1)
        split
        · exact fun s => hfailed s _
        · exact keeps_throw hR _
  exact hfrom b.listeners 0

end Access

section Store

variable (hR : StoreSteady R)
include hR

theorem keeps_save (r : Record) : (b.save key r).Keeps R := by
  have hA := hR.toAccessSteady
  refine (keeps_write key hA r).tryCatch hA fun f => ?_
  split
  · exact Keeps.bind hA (fun s => hR.seeing s rfl) fun _ => keeps_pure hA _
  · exact keeps_throw hA _

theorem keeps_persist (r : Record) (called : Option Failure) : (b.persist key r called).Keeps R := by
  have hA := hR.toAccessSteady
  refine (keeps_save b key hR r).discard.tryCatch hA fun f => ?_
  split
  · split <;> exact keeps_throw hA _
  · exact keeps_throw hA _

section

variable (hannounce : ∀ old new, (b.announce key old new).Keeps R)
include hannounce

theorem keeps_advance_of_announce (r : Record) (saving : Bool) : (b.advance key r saving).Keeps R := by
  have hA := hR.toAccessSteady
  refine (keeps_now hA).bind hA fun t => (keeps_ofExcept hA _).bind hA fun due => ?_
  split
  · exact keeps_pure hA _
  · rename_i target
    refine (keeps_ofTime hA _).bind hA fun e => ?_
    have htail : ∀ e : Record, (do b.announce key r.status target; pure e : Act Record).Keeps R :=
      fun e => (hannounce _ _).bind hA fun _ => keeps_pure hA e
    split
    · exact (keeps_save b key hR _).bind hA htail
    · exact (keeps_pure hA _).bind hA htail

theorem keeps_begin_of_announce : (b.begin key).Keeps R := by
  have hA := hR.toAccessSteady
  refine (keeps_load b key hA).bind hA fun r => ?_
  exact (keeps_advance_of_announce b key hR hannounce r true).bind hA fun _ =>
    keeps_of_still hA fun _ => rfl

end

end Store

section Breaker

variable (hR : BreakerSteady R)
include hR

theorem keeps_tell_any (o : Occurrence) : (b.tell o).Keeps R :=
  keeps_tell b hR.toAccessSteady (fun s _ _ => hR.talking s rfl) (fun s _ _ _ _ => hR.talking s rfl)
    fun s _ => hR.talking s rfl

theorem keeps_announce (old new : Status) : (b.announce key old new).Keeps R :=
  Keeps.bind hR.toAccessSteady (fun s => hR.talking s rfl) fun _ => keeps_tell_any b hR _

theorem keeps_advance (r : Record) (saving : Bool) : (b.advance key r saving).Keeps R :=
  keeps_advance_of_announce b key hR.toStoreSteady (keeps_announce b key hR) r saving

theorem keeps_begin : (b.begin key).Keeps R :=
  keeps_begin_of_announce b key hR.toStoreSteady (keeps_announce b key hR)

theorem keeps_finish (o : Opening) (result : Except Failure Json) :
    (b.finish key o result).Keeps R := by
  have hS := hR.toStoreSteady
  have hA := hS.toAccessSteady
  have htail : ∀ (called : Option Failure) (occurrence : Binary64 → Occurrence)
      (answer : Except Failure Json), (do
        let elapsed ← o.elapsed
        let r ← b.advance key o.record false
        b.persist key r called
        b.tell (occurrence elapsed)
        ofExcept answer : Act Json).Keeps R := by
    intro called occurrence answer
    refine (keeps_of_still hA fun _ => rfl).bind hA fun elapsed => ?_
    refine (keeps_advance b key hR o.record false).bind hA fun r => ?_
    exact (keeps_persist b key hS r called).bind hA fun _ =>
      (keeps_tell_any b hR _).bind hA fun _ => keeps_ofExcept hA _
  cases result with
  | ok v => exact htail none (.succeeded key) (.ok v)
  | error f =>
      cases hf : f.isOrdinary with
      | true =>
          rw [finish]
          simp only [hf, if_true]
          exact htail (some f) (.ofFailure key o.status f) (.error f)
      | false =>
          rw [finish]
          simp only [hf]
          exact keeps_throw hA f

theorem keeps_conclude (o : Opening) (result : Except Failure Json) :
    (b.conclude key o result).Keeps R := by
  rw [conclude_eq]
  exact keeps_finish b key hR _ _

end Breaker

end Breaker

theorem Work.start_keeps {R : Scene → Scene → Prop} (hR : AccessSteady R)
    (hstarted : ∀ s key, R s (s.seeing [.started key])) (hclock : ∀ s t, R s { s with now := t })
    (hmonotonic : ∀ s t, R s { s with monotonic := t }) (w : Work) (key : String) :
    (w.start key).Keeps R := by
  have hadvance : ∀ seconds, (advanceClock seconds).Keeps R := fun seconds =>
    (keeps_now hR).bind hR fun _ => (keeps_ofTime hR _).bind hR fun t s => hclock s t
  have hlast : ∀ seconds, (advanceMonotonic seconds).Keeps R := fun _ s => hmonotonic s _
  unfold Work.start
  refine Keeps.bind hR (fun s => hstarted s key) fun _ => ?_
  cases w.advance with
  | none =>
      cases w.monotonic with
      | none => exact keeps_pure hR ()
      | some seconds => exact hlast seconds
  | some seconds =>
      refine (hadvance seconds).bind hR fun _ => ?_
      cases w.monotonic with
      | none => exact keeps_pure hR ()
      | some seconds => exact hlast seconds

namespace Step

variable {R : Scene → Scene → Prop} {step : Step} {a : Act Answer}

/-- A step that is not carried out under a lock keeps what accesses to the store keep, if moving the
clock and laying faults keep it too. -/
theorem act?_keeps (hR : AccessSteady R) (hclock : ∀ s t, R s { s with now := t })
    (hlaying : ∀ s faults, R s { s with faults }) (h : step.act? = some a) : a.Keeps R := by
  cases step with
  | status b key =>
      cases h
      exact ((b.keeps_load key hR).bind hR fun _ => keeps_pure hR _).map _
  | snapshot b key =>
      cases h
      exact (b.keeps_load key hR).map _
  | resetIn b key =>
      cases h
      refine Keeps.map ((b.keeps_load key hR).bind hR fun _ => ?_) _
      exact (keeps_now hR).bind hR fun _ => keeps_ofTime hR _
  | advance seconds =>
      cases h
      refine Keeps.map ((keeps_now hR).bind hR fun _ => (keeps_ofTime hR _).bind hR fun t => ?_) _
      exact fun s => hclock s t
  | setClock t =>
      cases h
      exact Keeps.map (fun s => hclock s t) _
  | addFaults access faults =>
      cases h
      exact Keeps.map (fun s => hlaying s _) _
  | overwrite name content =>
      cases h
      exact Keeps.map (fun s => hR.storing s _) _
  | getRecord key =>
      cases h
      exact (keeps_readRecord hR key).map _
  | setRecord key r =>
      cases h
      exact (keeps_writeRecord hR key r).map _
  | call | force | release | cancel => cases h

end Step

def SameClock (s s' : Scene) : Prop := s'.now = s.now ∧ s'.monotonic = s.monotonic

def SameStarts (s s' : Scene) : Prop := s'.starts = s.starts

def Scene.hearings (s : Scene) : List Event := s.events.filter Event.isHearing

def SameHearings (s s' : Scene) : Prop := s'.hearings = s.hearings

theorem sameClock_steady : BreakerSteady SameClock where
  refl _ := ⟨rfl, rfl⟩
  trans h h' := ⟨h'.1.trans h.1, h'.2.trans h.2⟩
  seeing _ _ _ := ⟨rfl, rfl⟩
  talking _ _ _ := ⟨rfl, rfl⟩
  storing _ _ := ⟨rfl, rfl⟩
  meeting _ _ _ _ _ := ⟨rfl, rfl⟩

theorem sameStarts_steady : BreakerSteady SameStarts where
  refl _ := rfl
  trans h h' := h'.trans h
  seeing s e h := by cases e <;> first | rfl | cases h
  talking s e h := by cases e <;> first | rfl | cases h
  storing _ _ := rfl
  meeting _ _ _ _ _ := rfl

theorem sameHearings_steady : StoreSteady SameHearings where
  refl _ := rfl
  trans h h' := h'.trans h
  seeing s e h := by
    have hn : e.isHearing = false := by
      cases e with
      | noted speaker n => cases speaker <;> first | rfl | cases h
      | heard => cases h
      | _ => rfl
    rw [SameHearings, Scene.hearings, Scene.seeing_events, List.filter_append,
      List.filter_singleton, hn]
    rfl
  storing _ _ := rfl
  meeting _ _ _ _ _ := rfl

end KeyedBreaker
