import KeyedBreaker.Proofs.Breaker.Weathered

namespace KeyedBreaker

open Act

/-- What is stored when a status is forced on a circuit with this record. -/
structure Record.Replaced (c : Config) (target : Status) (t : Instant) (r e : Record) : Prop where
  status : e.status = target
  failureCount : e.failureCount = 0
  totalCount : e.totalCount = 0
  successCount : e.successCount = 0
  breakEnds : target = .open → ∃ u, t.addSeconds c.breakDuration = .ok u ∧ e.closeAt = some u
  closeAt : target ≠ .open → e.closeAt = r.closeAt
  windowEnds : target = .closed → ∃ u, t.addSeconds c.samplingDuration = .ok u ∧ e.resetAt = some u
  resetAt : target ≠ .closed → e.resetAt = r.resetAt
  previousStatus : e.previousStatus = if r.status = target then r.previousStatus else some r.status
  version : e.version = r.version + 1

def Event.warning? : Event → Option (String × Status × Nat)
  | .noted (.breaker _) (.overwriteConflict key target attempt) => some (key, target, attempt)
  | _ => none

namespace Scene

/-- The warnings of attempts that met a conflict, latest first. -/
def warnings (s : Scene) : List (String × Status × Nat) := s.events.filterMap Event.warning?

def SameWarnings (s s' : Scene) : Prop := s'.warnings = s.warnings

theorem sameWarnings_seeing (s : Scene) {e : Event} (h : e.warning? = none) :
    SameWarnings s (s.seeing [e]) := by
  rw [SameWarnings, warnings, seeing_events, List.filterMap_append, List.filterMap_cons, h]
  rfl

theorem sameWarnings_steady : AccessSteady SameWarnings where
  refl _ := rfl
  trans h h' := h'.trans h
  accessing s e h := sameWarnings_seeing s (by cases e <;> first | rfl | cases h)
  meeting _ _ _ _ _ := rfl
  storing _ _ := rfl

def SeesMore (s s' : Scene) : Prop := ∃ es, s'.events = es ++ s.events

theorem seesMore_steady : AccessSteady SeesMore where
  refl _ := ⟨[], rfl⟩
  trans := by
    rintro s s' s'' ⟨es, h⟩ ⟨es', h'⟩
    exact ⟨es' ++ es, by rw [h', h, List.append_assoc]⟩
  accessing _ e _ := ⟨[e], rfl⟩
  meeting _ _ _ _ _ := ⟨[], rfl⟩
  storing _ _ := ⟨[], rfl⟩

end Scene

namespace Act

variable {α β : Type} {key : String}

def ReadsFirst (key : String) (a : Act α) : Prop :=
  ∀ s, Scene.SeesMore (s.seeing [.storeRead key]) (a.play s).2

theorem ReadsFirst.bind {a : Act α} {g : α → Act β} (ha : a.ReadsFirst key)
    (hg : ∀ x, (g x).Keeps Scene.SeesMore) : (a >>= g).ReadsFirst key := by
  intro s
  have h := ha s
  rw [play_bind]
  rcases hp : a.play s with ⟨f | x, s'⟩ <;> rw [hp] at h
  · exact h
  · exact Scene.seesMore_steady.trans h (hg x s')

theorem ReadsFirst.tryCatch {a : Act α} {g : Failure → Act α} (ha : a.ReadsFirst key)
    (hg : ∀ f, (g f).Keeps Scene.SeesMore) : (tryCatch a g).ReadsFirst key := by
  intro s
  have h := ha s
  rw [play_tryCatch]
  rcases hp : a.play s with ⟨f | x, s'⟩ <;> rw [hp] at h
  · exact Scene.seesMore_steady.trans h (hg f s')
  · exact h

theorem readsFirst_readRecord (key : String) : (readRecord key).ReadsFirst key := by
  have hR := Scene.seesMore_steady
  intro s
  have he : (emit (.storeRead key)).play s = (.ok (), s.seeing [.storeRead key]) := rfl
  rw [readRecord, play_bind_ok s he]
  refine (keeps_nextFault hR .read).bind hR (fun fault => ?_) _
  split
  · exact keeps_throw hR _
  · exact keeps_fetch hR key

end Act

structure Attempt where
  before : Scene
  outcome : Except Failure (Status × Record)
  after : Scene

namespace Attempt

def Reads (key : String) (a : Attempt) : Prop :=
  Scene.SeesMore (a.before.seeing [.storeRead key]) a.after

def Fails (f : Failure) (a : Attempt) : Prop :=
  a.outcome = .error f ∧ a.after.store = a.before.store

def Conflicts (a : Attempt) : Prop := ∃ f, a.Fails f ∧ f.isA .stale = true

def Stores (b : Breaker) (key : String) (target : Status) (r e : Record) (a : Attempt) : Prop :=
  a.outcome = .ok (r.status, e) ∧
    (∃ x, a.before.store.lookup key = .ok x ∧ b.loaded a.before.now (.ok x) = .ok r) ∧
    Record.Replaced b.config target a.before.now r e ∧ a.after.store.lookup key = .ok (some e)

end Attempt

namespace Breaker

variable (b : Breaker) (key : String) (target : Status) (s : Scene)

def attempt : Attempt :=
  ⟨s, ((b.overwriteOnce key target).play s).1, ((b.overwriteOnce key target).play s).2⟩

theorem attempt_reads : (b.attempt key target s).Reads key := by
  have hR := Scene.seesMore_steady
  have hload : (b.load key).ReadsFirst key := by
    refine ((readsFirst_readRecord key).tryCatch fun f => keeps_throw hR _).bind fun x => ?_
    split
    · exact keeps_pure hR _
    · exact (keeps_now hR).bind hR fun _ => keeps_ofTime hR _
  refine hload.bind (fun r => (keeps_now hR).bind hR fun t => ?_) s
  exact (keeps_ofTime hR _).bind hR fun e => (keeps_write key hR _).bind hR fun _ => keeps_pure hR _

variable {b key target s}

theorem replaced_of_forced {t : Instant} {r e : Record} (h : b.forced target t r = .ok e) :
    Record.Replaced b.config target t r e.next := by
  obtain ⟨entered, hent, rfl⟩ := forced_eq_ok h
  exact ⟨hent.status, hent.failureCount, hent.totalCount, hent.successCount, hent.breakEnds,
    hent.closeAt, hent.windowEnds, hent.resetAt, rfl, congrArg (· + 1) hent.version⟩

theorem attempt_stores {previous : Status} {e : Record} {s' : Scene}
    (h : (b.overwriteOnce key target).play s = (.ok (previous, e), s')) :
    ∃ r, previous = r.status ∧ (b.attempt key target s).Stores b key target r e := by
  obtain ⟨rs, hw, hf⟩ := forced_of_play h
  cases hf with
  | kept hx hr he =>
      refine ⟨_, rfl, congrArg Prod.fst h, ⟨_, hx, hr⟩, replaced_of_forced he, ?_⟩
      rw [attempt, h]
      exact hw.store.lookup hx

theorem attempt_fails {f : Failure} {s' : Scene}
    (h : (b.overwriteOnce key target).play s = (.error f, s')) :
    (b.attempt key target s).Fails f := by
  obtain ⟨rs, hw, hf⟩ := forced_of_play h
  cases hf with
  | failed =>
      refine ⟨congrArg Prod.fst h, ?_⟩
      rw [attempt, h]
      exact hw.store.lookup_nil

theorem warnings_of_overwrite {out : Except Failure (Status × Record)} {s' : Scene}
    (h : (b.overwriteOnce key target).play s = (out, s')) : s'.warnings = s.warnings := by
  have hk := b.keeps_overwriteOnce key Scene.sameWarnings_steady target s
  rw [h] at hk
  exact hk

theorem news_of_overwrite {out : Except Failure (Status × Record)} {s' : Scene}
    (h : (b.overwriteOnce key target).play s = (out, s')) : s'.news = s.news := by
  have hk := b.keeps_overwriteOnce key sameNews_steady.toAccessSteady target s
  rw [h] at hk
  exact hk

theorem news_confirm_of_ok {previous : Status} {s' : Scene}
    (h : (b.confirm key target previous).play s = (.ok (), s')) :
    s'.news = (if previous = target then [] else b.tidings key previous target) ++ s.news := by
  unfold confirm at h
  split at h
  · rw [if_pos ‹_›]
    cases h
    rfl
  · rw [if_neg ‹_›]
    exact announce_news_of_ok h

variable (b key target s)

theorem warnings_confirm (previous : Status) :
    ((b.confirm key target previous).play s).2.warnings = s.warnings := by
  have hR := Scene.sameWarnings_steady
  have hconfirm : (b.confirm key target previous).Keeps Scene.SameWarnings := by
    unfold confirm
    split
    · exact keeps_pure hR ()
    · refine Keeps.bind hR (fun s => Scene.sameWarnings_seeing s rfl) fun _ => ?_
      refine keeps_tell b hR (fun s _ _ => Scene.sameWarnings_seeing s rfl) (fun s _ _ n _ => ?_)
        fun s _ => Scene.sameWarnings_seeing s rfl
      exact Scene.sameWarnings_seeing s rfl
  exact hconfirm s

theorem confirm_yields (previous : Status) :
    b.Yields ((b.confirm key target previous).play s).1 (.ok ()) := by
  obtain ⟨out, s', hp, hy, -⟩ := b.confirm_leads key target previous s
  rw [hp]
  exact hy

theorem Yields.map {α β : Type} {b : Breaker} {out result : Except Failure α} (h : b.Yields out result)
    (g : α → β) : b.Yields (out.map g) (result.map g) := by
  rcases h with rfl | ⟨f, hf, hb, rfl⟩
  · exact .inl rfl
  · exact .inr ⟨f, hf, hb, rfl⟩

theorem store_confirm (previous : Status) :
    ((b.confirm key target previous).play s).2.store = s.store := by
  obtain ⟨out, s', hp, -, hl⟩ := b.confirm_leads key target previous s
  rw [hp]
  exact hl.store.lookup_nil

theorem warnings_backOff (attempt : Nat) :
    ((b.backOff key target attempt).play s).2.warnings = (key, target, attempt) :: s.warnings := rfl

theorem news_backOff (attempt : Nat) :
    ((b.backOff key target attempt).play s).2.news = s.news := rfl

end Breaker

end KeyedBreaker
