import KeyedBreaker.Proofs.Breaker.News

namespace KeyedBreaker

namespace Event

theorem isHearing_of_isOfStore {e : Event} (h : e.isOfStore = true) : e.isHearing = false := by
  cases e with
  | noted speaker n => cases speaker <;> first | rfl | cases h
  | heard => cases h
  | _ => rfl

def isVerdict (e : Event) : Bool := e.isHearing && !e.isNews

end Event

def Scene.verdicts (s : Scene) : List Event := s.events.filter Event.isVerdict

def SameVerdicts (s s' : Scene) : Prop := s'.verdicts = s.verdicts

def Untold (s s' : Scene) : Prop :=
  ∃ ds, s'.events = ds ++ s.events ∧ ∀ d ∈ ds, d.isVerdict = false

variable {s s' s'' : Scene}

theorem untold_of_events (h : s'.events = s.events) : Untold s s' := ⟨[], h, by simp⟩

theorem untold_seeing (s : Scene) {e : Event} (h : e.isVerdict = false) : Untold s (s.seeing [e]) :=
  ⟨[e], rfl, List.forall_mem_singleton.2 h⟩

theorem untold_steady : StoreSteady Untold where
  refl _ := untold_of_events rfl
  trans := by
    rintro s s' s'' ⟨ds, h, hds⟩ ⟨ds', h', hds'⟩
    exact ⟨ds' ++ ds, by rw [h', h, List.append_assoc],
      fun d hd => (List.mem_append.1 hd).elim (hds' d) (hds d)⟩
  seeing s e h := untold_seeing s (by rw [Event.isVerdict, Event.isHearing_of_isOfStore h]; rfl)
  meeting _ _ _ _ _ := untold_of_events rfl
  storing _ _ := untold_of_events rfl

theorem Untold.trans (h : Untold s s') (h' : Untold s' s'') : Untold s s'' := untold_steady.trans h h'

theorem Untold.sameVerdicts (h : Untold s s') : SameVerdicts s s' := by
  obtain ⟨ds, h, hds⟩ := h
  rw [SameVerdicts, Scene.verdicts, h, List.filter_append, List.filter_eq_nil_iff.2 fun d hd => ?_]
  · rfl
  · rw [hds d hd]
    exact Bool.false_ne_true

open Act

theorem Work.start_untold (w : Work) (key : String) : (w.start key).Keeps Untold :=
  w.start_keeps untold_steady.toAccessSteady (fun s _ => untold_seeing s rfl)
    (fun _ _ => untold_of_events rfl) (fun _ _ => untold_of_events rfl) key

namespace Breaker

variable (b : Breaker) (key : String)

theorem announce_untold (old new : Status) : (b.announce key old new).Keeps Untold := by
  refine Keeps.bind untold_steady.toAccessSteady (fun s => untold_seeing s rfl) fun _ => ?_
  refine b.keeps_tell untold_steady.toAccessSteady (fun s _ _ => untold_seeing s rfl)
    (fun s _ _ n hn => untold_seeing s ?_) fun s _ => untold_seeing s rfl
  cases hn
  rfl

theorem advance_untold (r : Record) (saving : Bool) : (b.advance key r saving).Keeps Untold :=
  b.keeps_advance_of_announce key untold_steady (b.announce_untold key) r saving

theorem begin_untold : (b.begin key).Keeps Untold :=
  b.keeps_begin_of_announce key untold_steady (b.announce_untold key)

variable {b key} in
theorem untold_of_running {w : Work} {o : Opening}
    (h : (b.enterCall key w).play s = (.ok (.running o), s')) : Untold s s' := by
  obtain ⟨s₁, hbegin, hstart⟩ := begin_of_running h
  have h₁ := b.begin_untold key s
  have h₂ := w.start_untold key s₁
  rw [hbegin] at h₁
  rw [hstart] at h₂
  exact h₁.trans h₂

theorem confirm_untold (target previous : Status) : (b.confirm key target previous).Keeps Untold := by
  unfold confirm
  split
  · exact keeps_pure untold_steady.toAccessSteady ()
  · exact b.announce_untold key previous target

def tellingsOf (b : Breaker) (told? : Option Occurrence) : List Event :=
  (told?.map b.tellings).getD []

/-- What was seen between the scenes tells every listener once of this occurrence, if there is one, and
nobody of how another call came out. When listeners are told, all else was done. -/
def Tells (b : Breaker) (told? : Option Occurrence) (s s' : Scene) : Prop :=
  ∃ es ds, s'.events = es ++ (ds ++ s.events) ∧ (∀ d ∈ ds, d.isVerdict = false) ∧
    es.filter Event.isVerdict = b.tellingsOf told? ∧ ∀ e ∈ es, e.isTalk = true ∧ e.isNews = false

variable {b} {told? : Option Occurrence}

theorem Tells.verdicts (h : b.Tells told? s s') : s'.verdicts = b.tellingsOf told? ++ s.verdicts := by
  obtain ⟨es, ds, h, hds, hes, -⟩ := h
  have huntold : ds.filter Event.isVerdict = [] :=
    List.filter_eq_nil_iff.2 fun d hd => by rw [hds d hd]; exact Bool.false_ne_true
  rw [Scene.verdicts, h, List.filter_append, List.filter_append, hes, huntold]
  rfl

theorem tells_of_untold (h : Untold s s') : b.Tells none s s' := by
  obtain ⟨ds, h, hds⟩ := h
  exact ⟨[], ds, h, hds, rfl, by simp⟩

theorem Tells.after (h : b.Tells told? s' s'') (hbefore : Untold s s') : b.Tells told? s s'' := by
  obtain ⟨es, ds, h, hds, hes, htalk⟩ := h
  obtain ⟨ds', h', hds'⟩ := hbefore
  refine ⟨es, ds ++ ds', by rw [h, h', List.append_assoc], fun d hd => ?_, hes, htalk⟩
  exact (List.mem_append.1 hd).elim (hds d) (hds' d)

theorem tell_tells (hb : b.Polite) {o : Occurrence} (ho : o.hook ≠ .state) (s : Scene) :
    ∃ s', (b.tell o).play s = (.ok (), s') ∧ b.Tells (some o) s s' := by
  obtain ⟨out, es, hu, hseen, htold, hy⟩ := b.tell_shows o
  obtain rfl := hy.of_polite hb
  -- of such an occurrence nothing that is made known is news
  have hshown : ∀ e ∈ es, e.isTalk = true ∧ e.isNews = false := by
    intro e he
    obtain rfl | ⟨j, l, he⟩ := hseen e he
    · exact ⟨rfl, rfl⟩
    · obtain rfl | ⟨n, hn, rfl⟩ := Listener.eq_of_mem_shows he
      · cases o with
        | transition => exact absurd rfl ho
        | _ => exact ⟨rfl, rfl⟩
      · cases o with
        | transition => exact absurd rfl ho
        | succeeded => cases hn
        | rejected | failed =>
            cases hn
            exact ⟨rfl, rfl⟩
  refine ⟨_, hu s, es, [], rfl, by simp, ?_, hshown⟩
  rw [tellingsOf, Option.map_some, Option.getD_some, ← htold rfl]
  refine List.filter_congr fun e he => ?_
  rw [Event.isVerdict, (hshown e he).2]
  exact Bool.and_true _

end Breaker

end KeyedBreaker
