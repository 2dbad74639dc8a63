import KeyedBreaker.Proofs.Breaker.Steady

namespace KeyedBreaker

namespace Event

def newsKey? : Event → Option String
  | .noted _ (.transition key ..) | .noted _ (.stateChanged key ..) => some key
  | .heard _ _ (.transition key ..) => some key
  | _ => none

def isNews (e : Event) : Bool := e.newsKey?.isSome

theorem isNews_of_isOfStore {e : Event} (h : e.isOfStore = true) : e.isNews = false := by
  cases e with
  | noted speaker n => cases speaker <;> cases n <;> first | rfl | cases h
  | heard => cases h
  | _ => rfl

def transition? (key : String) : Event → Option (Status × Status)
  | .noted (.breaker _) (.transition k old new) => if k = key then some (old, new) else none
  | _ => none

theorem newsKey?_of_transition? {key : String} {e : Event} {p : Status × Status}
    (h : e.transition? key = some p) : e.newsKey? = some key := by
  unfold transition? at h
  split at h
  · split at h
    · rename_i hk
      exact congrArg some hk
    · cases h
  · cases h

end Event

namespace Scene

/-- The news so far, latest first. -/
def news (s : Scene) : List Event := s.events.filter Event.isNews

theorem news_seeing_of_not_news (s : Scene) {e : Event} (h : e.isNews = false) :
    (s.seeing [e]).news = s.news := by
  rw [news, seeing_events, List.filter_append, List.filter_singleton, h]
  rfl

def newsOf (key : String) (s : Scene) : List Event := s.news.filter fun e => e.newsKey? = some key

theorem newsOf_of_news {key : String} {s s' : Scene} {es : List Event}
    (hes : ∀ e ∈ es, e.newsKey? = some key) (h : s'.news = es ++ s.news) :
    s'.newsOf key = es ++ s.newsOf key := by
  rw [newsOf, h, List.filter_append, List.filter_eq_self.2 fun e he => decide_eq_true (hes e he)]
  rfl

/-- The transitions of the key that breakers have logged, latest first. -/
def logged (key : String) (s : Scene) : List (Status × Status) :=
  s.events.filterMap (Event.transition? key)

theorem logged_eq (key : String) (s : Scene) :
    s.logged key = (s.newsOf key).filterMap (Event.transition? key) := by
  rw [logged, newsOf, news, List.filter_filter, List.filterMap_filter]
  refine List.filterMap_congr fun e _ => ?_
  cases h : e.transition? key with
  | none => exact (ite_self _).symm
  | some p =>
      have hk := Event.newsKey?_of_transition? h
      rw [Event.isNews, hk]
      exact (if_pos (by simp)).symm

end Scene

def SameNews (s s' : Scene) : Prop := s'.news = s.news

theorem sameNews_steady : StoreSteady SameNews where
  refl _ := rfl
  trans h h' := h'.trans h
  seeing s _ h := s.news_seeing_of_not_news (Event.isNews_of_isOfStore h)
  meeting _ _ _ _ _ := rfl
  storing _ _ := rfl

open Act

theorem Work.start_sameNews (w : Work) (key : String) : (w.start key).Keeps SameNews :=
  w.start_keeps sameNews_steady.toAccessSteady (fun s _ => s.news_seeing_of_not_news rfl) (fun _ _ => rfl)
    (fun _ _ => rfl) key

namespace Breaker

theorem tell_sameNews (b : Breaker) {o : Occurrence} (h : o.hook ≠ .state) :
    (b.tell o).Keeps SameNews := by
  cases o with
  | transition => exact absurd rfl h
  | rejected | succeeded | failed =>
      refine keeps_tell b sameNews_steady.toAccessSteady (fun s _ _ => s.news_seeing_of_not_news rfl)
        (fun s _ _ n hn => s.news_seeing_of_not_news ?_) fun s _ => s.news_seeing_of_not_news rfl
      cases hn <;> rfl

theorem hook_ofFailure (key : String) (status : Status) (f : Failure) (elapsed : Binary64) :
    (Occurrence.ofFailure key status f elapsed).hook ≠ .state := by
  unfold Occurrence.ofFailure
  split <;> exact nofun

end Breaker

def Listener.response (i j : Nat) (key : String) (old new : Status) : Listener → Event
  | .showing _ => .heard i j (.transition key old new)
  | .logging => .noted (.listener i j) (.stateChanged key old new)

theorem Listener.shows_transition (i j : Nat) (key : String) (old new : Status) (l : Listener) :
    l.shows i j (.transition key old new) = [l.response i j key old new] := by
  cases l <;> rfl

namespace Breaker

/-- The news of a transition, latest first: the entry in the breaker's log, and one response from
each listener in turn. -/
def tidings (b : Breaker) (key : String) (old new : Status) : List Event :=
  (b.listeners.mapIdx fun j l => l.response b.number j key old new).reverse ++
    [.noted (.breaker b.number) (.transition key old new)]

variable {b : Breaker} {key : String} {old new : Status}

theorem newsKey?_of_mem_tidings {e : Event} (h : e ∈ b.tidings key old new) :
    e.newsKey? = some key := by
  rcases List.mem_append.1 h with h | h
  · obtain ⟨j, hj, rfl⟩ := List.mem_mapIdx.1 (List.mem_reverse.1 h)
    cases b.listeners[j] <;> rfl
  · rw [List.mem_singleton.1 h]
    rfl

theorem tellings_transition (b : Breaker) (key : String) (old new : Status) :
    b.tellings (.transition key old new) =
      (b.listeners.mapIdx fun j l => l.response b.number j key old new).reverse := by
  simp only [tellings, Listener.shows_transition, List.mapIdx_eq_zipIdx_map, ← List.flatMap_def,
    ← List.map_eq_flatMap]

theorem announce_news_of_ok {s s' : Scene} (h : (b.announce key old new).play s = (.ok (), s')) :
    s'.news = b.tidings key old new ++ s.news := by
  obtain ⟨out, es, hu, hseen, htold, -⟩ := b.tell_shows (.transition key old new)
  have hannounce : (b.announce key old new).Utters out
      (es ++ [.noted (.breaker b.number) (.transition key old new)]) :=
    (utters_note _ _).bind_ok hu
  rw [hannounce s] at h
  obtain ⟨rfl, rfl⟩ := Prod.mk.inj h
  have hnews : ∀ e ∈ es, e.isNews = e.isHearing := by
    intro e he
    obtain rfl | ⟨j, l, he⟩ := hseen e he
    · rfl
    · rw [l.shows_transition] at he
      rw [List.mem_singleton.1 he]
      cases l <;> rfl
  rw [Scene.news, Scene.seeing_events, List.filter_append, List.filter_append,
    List.filter_congr hnews, htold rfl, tellings_transition]
  rfl

theorem announce_news (hb : b.Polite) (key : String) (old new : Status) (s : Scene) :
    ∃ s', (b.announce key old new).play s = (.ok (), s') ∧
      s'.news = b.tidings key old new ++ s.news := by
  obtain ⟨out, es, hu, -, hy⟩ := b.announce_utters key old new
  obtain rfl := hy.of_polite hb
  exact ⟨_, hu s, announce_news_of_ok (hu s)⟩

/-- The transition that a record owes at a time, by the statuses before and after it. -/
def owed (b : Breaker) (t : Instant) (r : Record) : Option (Status × Status) :=
  match b.change t r with
  | .ok (some (target, _)) => some (r.status, target)
  | _ => none

theorem owed_of_change {t : Instant} {r : Record} {target : Status} {e : Record}
    (h : b.change t r = .ok (some (target, e))) : b.owed t r = some (r.status, target) := by
  rw [owed, h]

theorem owed_of_unchanged {t : Instant} {r : Record} (h : b.change t r = .ok none) : b.owed t r = none := by
  rw [owed, h]

def report (b : Breaker) (key : String) : Option (Status × Status) → List Event
  | some (old, new) => b.tidings key old new
  | none => []

variable {s : Scene} {x : Option Record} {r : Record}

theorem news_announce_then {α : Type} (hb : b.Polite) (old new : Status) (v : α) (s : Scene) :
    ((do b.announce key old new; pure v : Act α).play s).2.news = b.tidings key old new ++ s.news := by
  obtain ⟨s', hp, hn⟩ := announce_news hb key old new s
  rw [play_bind_ok s hp, play_pure, hn]

theorem news_advance_unsaved (hb : b.Polite) (key : String) (r : Record) (s : Scene) :
    ((b.advance key r false).play s).2.news = b.report key (b.owed s.now r) ++ s.news := by
  cases h : b.change s.now r with
  | error f =>
      rw [advance_of_error h, owed, h]
      rfl
  | ok change =>
      cases change with
      | none =>
          rw [advance_of_none h, owed, h]
          rfl
      | some d =>
          obtain ⟨target, e⟩ := d
          rw [advance_of_some h, owed, h]
          exact news_announce_then hb r.status target e s

theorem news_advance_saved (hb : b.Polite) (hq : s.Quiet) (hx : s.store.lookup key = .ok x)
    (hv : r.version = Record.versionOf x) :
    ((b.advance key r true).play s).2.news = b.report key (b.owed s.now r) ++ s.news := by
  cases h : b.change s.now r with
  | error f =>
      rw [advance_of_error h, owed, h]
      rfl
  | ok change =>
      cases change with
      | none =>
          rw [advance_of_none h, owed, h]
          rfl
      | some d =>
          obtain ⟨target, e⟩ := d
          obtain ⟨s₁, hs, -⟩ := b.save_leads hq hx ((version_change h).trans hv)
          have hn := b.keeps_save key sameNews_steady e s
          rw [hs] at hn
          rw [advance_of_some h, owed, h, if_pos rfl, play_bind_ok s hs]
          exact (news_announce_then hb r.status target e.next s₁).trans (congrArg _ hn)

theorem news_bind {α β : Type} {a : Act α} {g : α → Act β} (hg : ∀ y, (g y).Keeps SameNews)
    (s : Scene) : ((a >>= g).play s).2.news = (a.play s).2.news := by
  rw [play_bind]
  rcases a.play s with ⟨f | y, s'⟩
  · rfl
  · exact hg y s'

/-- The end of a call makes news of the transition that its record then owes, except where the call
was cancelled or aborted. -/
theorem news_finish (hb : b.Polite) (key : String) (o : Opening) (result : Except Failure Json)
    (hr : ∀ f, result = .error f → f.isOrdinary = true) (s : Scene) :
    ((b.finish key o result).play s).2.news = b.report key (b.owed s.now o.record) ++ s.news := by
  have hpersist := fun r called => b.keeps_persist key sameNews_steady r called
  cases result with
  | ok v =>
      rw [finish, play_bind_ok s (play_elapsed o s), news_bind]
      · exact news_advance_unsaved hb key o.record s
      · refine fun r => (hpersist r none).bind sameNews_steady.toAccessSteady fun _ => ?_
        have hhook : ∀ e, (Occurrence.succeeded key e).hook ≠ .state := fun _ h => by cases h
        exact (b.tell_sameNews (hhook _)).bind sameNews_steady.toAccessSteady fun _ => keeps_pure sameNews_steady.toAccessSteady v
  | error f =>
      rw [finish]
      simp only [hr f rfl, if_true]
      rw [play_bind_ok s (play_elapsed o s), news_bind]
      · exact news_advance_unsaved hb key o.record s
      · refine fun r => (hpersist r (some f)).bind sameNews_steady.toAccessSteady fun _ => ?_
        exact (b.tell_sameNews (hook_ofFailure key o.status f _)).bind sameNews_steady.toAccessSteady fun _ =>
          keeps_throw sameNews_steady.toAccessSteady f

theorem news_conclude (hb : b.Polite) (key : String) (o : Opening) (result : Except Failure Json)
    (hr : ∀ f, (Record.settle b.config o.status o.record result).2 = .error f → f.isOrdinary = true)
    (s : Scene) :
    ((b.conclude key o result).play s).2.news =
      b.report key (b.owed s.now (Record.settle b.config o.status o.record result).1) ++ s.news := by
  rw [conclude_eq, news_finish hb key _ _ hr]

theorem news_begin (hb : b.Polite) (hq : s.Quiet) (hx : s.store.lookup key = .ok x)
    (hr : b.loaded s.now (.ok x) = .ok r) :
    ((b.begin key).play s).2.news = b.report key (b.owed s.now r) ++ s.news := by
  obtain ⟨s₁, hload, hl⟩ := b.load_leads hq key
  rw [hx, hr] at hload
  have hn : s₁.news = s.news := by
    have hn := b.keeps_load key sameNews_steady.toAccessSteady s
    rwa [hload] at hn
  rw [begin, play_bind_ok s hload, news_bind,
    news_advance_saved hb (hl.quiet hq) ((hl.lookup_eq key).trans hx) (versionOf_loaded hr), hn,
    hl.now]
  exact fun r => keeps_of_still sameNews_steady.toAccessSteady fun _ => rfl

theorem news_confirm (hb : b.Polite) (key : String) (target previous : Status) (s : Scene) :
    ((b.confirm key target previous).play s).2.news =
      (if previous = target then [] else b.tidings key previous target) ++ s.news := by
  unfold confirm
  split
  · rfl
  · obtain ⟨s', hp, hn⟩ := announce_news hb key previous target s
    rw [hp, hn]

end Breaker

end KeyedBreaker
