import KeyedBreaker.Proofs.Breaker.News

namespace KeyedBreaker

/-- Between the scenes, whatever faults were met, time stood still, no function was started, these
records were kept under the key, and these transitions of it were logged. Latest first. -/
structure Scene.Weathers (key : String) (rs : List Record) (ts : List (Status × Status))
    (s s' : Scene) : Prop where
  now : s'.now = s.now
  monotonic : s'.monotonic = s.monotonic
  store : s.store.Grows key rs s'.store
  starts : s'.starts = s.starts
  logged : ∀ other, s'.logged other = (if other = key then ts else []) ++ s.logged other

namespace Scene

variable {key : String} {rs rs' : List Record} {ts ts' : List (Status × Status)}
  {s s' s'' : Scene}

theorem logged_trans
    (h : ∀ other, s'.logged other = (if other = key then ts else []) ++ s.logged other)
    (h' : ∀ other, s''.logged other = (if other = key then ts' else []) ++ s'.logged other)
    (other : String) :
    s''.logged other = (if other = key then ts' ++ ts else []) ++ s.logged other := by
  rw [h', h, ← List.append_assoc]
  split <;> rfl

namespace Weathers

theorem refl (key : String) (s : Scene) : s.Weathers key [] [] s :=
  ⟨rfl, rfl, .refl, rfl, fun _ => by rw [ite_self, List.nil_append]⟩

theorem trans (h : s.Weathers key rs ts s') (h' : s'.Weathers key rs' ts' s'') :
    s.Weathers key (rs' ++ rs) (ts' ++ ts) s'' where
  now := h'.now.trans h.now
  monotonic := h'.monotonic.trans h.monotonic
  store := h.store.trans h'.store
  starts := h'.starts.trans h.starts
  logged := logged_trans h.logged h'.logged

end Weathers

end Scene

def SameLogged (s s' : Scene) : Prop := ∀ key, s'.logged key = s.logged key

theorem sameLogged_of_sameNews {s s' : Scene} (h : SameNews s s') : SameLogged s s' := by
  intro key
  rw [Scene.logged_eq, Scene.logged_eq, Scene.newsOf, h]
  rfl

theorem sameLogged_steady : StoreSteady SameLogged where
  refl _ _ := rfl
  trans h h' key := (h' key).trans (h key)
  seeing s _ h := sameLogged_of_sameNews (sameNews_steady.seeing s h)
  meeting _ _ _ _ _ _ := rfl
  storing _ _ _ := rfl

open Act

namespace Act

variable {α : Type} {key : String} {rs : List Record} {s s' : Scene} {a : Act α}
  {out : Except Failure α}

theorem weathers_of_keeps (hclock : a.Keeps SameClock) (hstarts : a.Keeps SameStarts)
    (hlogged : a.Keeps SameLogged) (h : a.play s = (out, s')) (hg : s.store.Grows key rs s'.store) :
    s.Weathers key rs [] s' := by
  have hc := hclock s
  have hs := hstarts s
  have hl := hlogged s
  rw [h] at hc hs hl
  refine ⟨hc.1, hc.2, hg, hs, fun other => ?_⟩
  rw [ite_self, List.nil_append, hl]

end Act

namespace Breaker

variable {b : Breaker} {key : String} {s s' : Scene} {r e : Record}

inductive Saved (r : Record) : Except Failure Record → List Record → Prop
  | kept : Saved r (.ok r.next) [r.next]
  | dropped : Saved r (.ok r) []
  | failed {f : Failure} : Saved r (.error f) []

theorem load_weathers (b : Breaker) (key : String) (s : Scene) :
    ∃ out s', (b.load key).play s = (out, s') ∧ s.Weathers key [] [] s' ∧
      ∀ r, out = .ok r → ∃ x, s.store.lookup key = .ok x ∧ b.loaded s.now (.ok x) = .ok r := by
  obtain ⟨s', ha, hread⟩ := readRecord_cases key s
  have hload : ∃ out, (b.load key).play s = (out, s') ∧
      ∀ r, out = .ok r → ∃ x, s.store.lookup key = .ok x ∧ b.loaded s.now (.ok x) = .ok r := by
    have hfails : ∀ f, (readRecord key).play s = (.error f, s') →
        ∃ g, (b.load key).play s = (.error g, s') :=
      fun f hf => ⟨_, play_bind_error s (play_tryCatch_error s hf _) _⟩
    obtain hp | ⟨f, hp⟩ := hread
    · cases hx : s.store.lookup key with
      | error f =>
          obtain ⟨g, hg⟩ := hfails f (hx ▸ hp)
          exact ⟨_, hg, fun _ h => by cases h⟩
      | ok x => exact ⟨_, play_load b (hx ▸ hp) ha.now, fun r hr => ⟨x, rfl, hr⟩⟩
    · obtain ⟨g, hg⟩ := hfails f hp
      exact ⟨_, hg, fun _ h => by cases h⟩
  obtain ⟨out, hp, hout⟩ := hload
  refine ⟨out, s', hp, weathers_of_keeps ?_ ?_ ?_ hp (ha.store ▸ .refl), hout⟩
  · exact b.keeps_load key sameClock_steady.toAccessSteady
  · exact b.keeps_load key sameStarts_steady.toAccessSteady
  · exact b.keeps_load key sameLogged_steady.toAccessSteady

theorem write_weathers (key : String) (r : Record) (s : Scene) :
    ∃ out s' rs, (write key r).play s = (out, s') ∧ s.Weathers key rs [] s' ∧
      (out = .ok r.next ∧ rs = [r.next] ∨ (∃ f, out = .error f) ∧ rs = []) := by
  have hwrite : ∃ out s' rs, (write key r).play s = (out, s') ∧ s.store.Grows key rs s'.store ∧
      (out = .ok r.next ∧ rs = [r.next] ∨ (∃ f, out = .error f) ∧ rs = []) := by
    obtain ⟨s', ⟨x, hx, hv, hp, ha⟩ | ⟨f, hp, ha⟩⟩ := writeRecord_cases key r s
    · exact ⟨_, s', _, play_tryCatch_ok s hp _, ha.store ▸ .keep .refl hx hv, .inl ⟨rfl, rfl⟩⟩
    · exact ⟨_, s', _, play_tryCatch_error s hp _, ha.store ▸ .refl, .inr ⟨⟨_, rfl⟩, rfl⟩⟩
  obtain ⟨out, s', rs, hp, hg, hout⟩ := hwrite
  refine ⟨out, s', rs, hp, weathers_of_keeps ?_ ?_ ?_ hp hg, hout⟩
  · exact keeps_write key sameClock_steady.toAccessSteady r
  · exact keeps_write key sameStarts_steady.toAccessSteady r
  · exact keeps_write key sameLogged_steady.toAccessSteady r

theorem save_weathers (b : Breaker) (key : String) (r : Record) (s : Scene) :
    ∃ out s' rs, (b.save key r).play s = (out, s') ∧ s.Weathers key rs [] s' ∧ Saved r out rs := by
  obtain ⟨out, s', rs, hp, hw, ⟨rfl, rfl⟩ | ⟨⟨f, rfl⟩, rfl⟩⟩ := write_weathers key r s
  · exact ⟨_, s', _, play_tryCatch_ok s hp _, hw, .kept⟩
  · have hs : (b.save key r).play s = _ := play_tryCatch_error s hp _
    split at hs
    · have hn : s'.Weathers key [] []
          (s'.seeing [b.conflictNotice key f.versions.1 f.versions.2]) :=
        ⟨rfl, rfl, .refl, rfl, fun _ => by rw [ite_self, List.nil_append]; rfl⟩
      exact ⟨_, _, _, hs, hw.trans hn, .dropped⟩
    · exact ⟨_, _, _, hs, hw, .failed⟩

theorem tell_weathers (b : Breaker) (o : Occurrence) (key : String) (s : Scene) :
    ∃ out s', (b.tell o).play s = (out, s') ∧ s.Weathers key [] [] s' := by
  obtain ⟨out, es, hu, hes, -⟩ := b.tell_utters o
  have hlogged : (b.tell o).Keeps SameLogged :=
    b.keeps_tell sameLogged_steady.toAccessSteady (fun _ _ _ _ => rfl) (fun _ _ _ _ _ _ => rfl) fun _ _ _ => rfl
  have hl := hlogged s
  rw [hu s] at hl
  refine ⟨out, _, hu s, rfl, rfl, .refl, Scene.starts_seeing hes, fun other => ?_⟩
  rw [ite_self, List.nil_append, hl]

/-- A transition is logged before the listeners are told of it. -/
theorem announce_weathers (b : Breaker) (key : String) (old new : Status) (s : Scene) :
    ∃ out s', (b.announce key old new).play s = (out, s') ∧ s.Weathers key [] [(old, new)] s' := by
  let noted := s.seeing [.noted (.breaker b.number) (.transition key old new)]
  have hnoted : s.Weathers key [] [(old, new)] noted := by
    refine ⟨rfl, rfl, .refl, rfl, fun other => ?_⟩
    rw [Scene.logged, Scene.seeing_events, List.filterMap_append]
    refine congrArg (· ++ _) ?_
    by_cases hk : other = key
    · subst hk
      simp [Event.transition?]
    · simp [Event.transition?, hk, Ne.symm hk]
  obtain ⟨out, s', hp, hw⟩ := b.tell_weathers (.transition key old new) key noted
  exact ⟨out, s', hp, hnoted.trans hw⟩

/-- How a record comes out of being advanced: there is no answer to what is due, or nothing is due, or a
transition was made, and the record after it was kept or not before it was announced; a listener may
get in the way of the announcement. -/
inductive Advanced (b : Breaker) (t : Instant) (r : Record) :
    Except Failure Record → List Record → List (Status × Status) → Prop
  | failed {f : Failure} : Advanced b t r (.error f) [] []
  | still : b.change t r = .ok none → Advanced b t r (.ok r) [] []
  | moved {target : Status} {e e' : Record} {rs : List Record} :
      b.change t r = .ok (some (target, e)) → Saved e (.ok e') rs →
      Advanced b t r (.ok e') rs [(r.status, target)]
  | interrupted {target : Status} {e e' : Record} {rs : List Record} {f : Failure} :
      b.change t r = .ok (some (target, e)) → Saved e (.ok e') rs →
      Advanced b t r (.error f) rs [(r.status, target)]

theorem announce_then_weathers (b : Breaker) (key : String) (old new : Status) (e : Record)
    (s : Scene) :
    ∃ out s', (do b.announce key old new; pure e : Act Record).play s = (out, s') ∧
      s.Weathers key [] [(old, new)] s' ∧ (out = .ok e ∨ ∃ f, out = .error f) := by
  obtain ⟨told, s', ha, hw⟩ := b.announce_weathers key old new s
  cases told with
  | error f => exact ⟨.error f, s', play_bind_error s ha _, hw, .inr ⟨f, rfl⟩⟩
  | ok u => exact ⟨.ok e, s', play_bind_ok s ha _, hw, .inl rfl⟩

theorem advance_weathers (b : Breaker) (key : String) (r : Record) (saving : Bool) (s : Scene) :
    ∃ out s' rs ts, (b.advance key r saving).play s = (out, s') ∧ s.Weathers key rs ts s' ∧
      Advanced b s.now r out rs ts ∧ (saving = false → rs = []) := by
  cases h : b.change s.now r with
  | error f => exact ⟨_, s, _, _, advance_of_error h, .refl key s, .failed, fun _ => rfl⟩
  | ok o =>
      cases o with
      | none => exact ⟨_, s, _, _, advance_of_none h, .refl key s, .still h, fun _ => rfl⟩
      | some d =>
          obtain ⟨target, e⟩ := d
          -- what follows the saving, with the record that it gives
          have htold : ∀ {e' rs s₁}, s.Weathers key rs [] s₁ → Saved e (.ok e') rs →
              (saving = false → rs = []) → ∃ out s' rs ts,
                (do b.announce key r.status target; pure e' : Act Record).play s₁ = (out, s') ∧
                  s.Weathers key rs ts s' ∧ Advanced b s.now r out rs ts ∧ (saving = false → rs = []) := by
            intro e' rs s₁ hw hsaved hrs
            obtain ⟨out, s', hp, hw', rfl | ⟨f, rfl⟩⟩ :=
              b.announce_then_weathers key r.status target e' s₁
            · exact ⟨_, s', rs, _, hp, hw.trans hw', .moved h hsaved, hrs⟩
            · exact ⟨_, s', rs, _, hp, hw.trans hw', .interrupted h hsaved, hrs⟩
          rw [advance_of_some h]
          cases saving with
          | false => exact htold (.refl key s) .dropped fun _ => rfl
          | true =>
              obtain ⟨saved, s₁, rs, hp, hw, hsaved⟩ := b.save_weathers key e s
              rw [if_pos rfl]
              cases saved with
              | ok e' =>
                  rw [play_bind_ok s hp]
                  exact htold hw hsaved fun h => by cases h
              | error f =>
                  cases hsaved
                  exact ⟨_, s₁, _, _, play_bind_error s hp _, hw, .failed, fun _ => rfl⟩

inductive Ended (b : Breaker) (t : Instant) (r : Record) :
    List Record → List (Status × Status) → Prop
  | dropped {ts : List (Status × Status)} : (∀ p ∈ ts, b.owed t r = some p) → Ended b t r [] ts
  | kept {e : Record} {ts : List (Status × Status)} : b.renewed t r = .ok e →
      (∀ p ∈ ts, b.owed t r = some p) → Ended b t r [e.next] ts

theorem persist_weathers (b : Breaker) (key : String) (r : Record) (called : Option Failure)
    (s : Scene) :
    ∃ out s' rs, (b.persist key r called).play s = (out, s') ∧ s.Weathers key rs [] s' ∧
      (rs = [] ∨ rs = [r.next]) := by
  obtain ⟨saved, s', rs, hp, hw, hsaved⟩ := b.save_weathers key r s
  cases saved with
  | ok e =>
      refine ⟨_, s', rs, persist_of_save hp, hw, ?_⟩
      cases hsaved with
      | kept => exact .inr rfl
      | dropped => exact .inl rfl
  | error f =>
      have hd : (discard (b.save key r) : Act Unit).play s = (.error f, s') := by
        rw [play_discard, hp]
        rfl
      have hthrown : ∃ g, (b.persist key r called).play s = (.error g, s') := by
        rw [persist, play_tryCatch_error s hd]
        cases called with
        | none => exact ⟨f, rfl⟩
        | some g =>
            dsimp only
            split <;> exact ⟨_, rfl⟩
      obtain ⟨g, hg⟩ := hthrown
      cases hsaved
      exact ⟨_, s', _, hg, hw, .inl rfl⟩

theorem finish_tail_weathers (b : Breaker) (key : String) (o : Opening) (called : Option Failure)
    (occurrence : Binary64 → Occurrence) (result : Except Failure Json) (s : Scene) :
    ∃ out s' rs ts, (do
        let elapsed ← o.elapsed
        let r ← b.advance key o.record false
        b.persist key r called
        b.tell (occurrence elapsed)
        ofExcept result : Act Json).play s = (out, s') ∧
      s.Weathers key rs ts s' ∧ Ended b s.now o.record rs ts := by
  have hsaves : ∀ {e ts s₁} (elapsed : Binary64), s.Weathers key [] ts s₁ →
      b.renewed s.now o.record = .ok e → (∀ p ∈ ts, b.owed s.now o.record = some p) →
      ∃ out s' rs ts, (do
        b.persist key e called
        b.tell (occurrence elapsed)
        ofExcept result : Act Json).play s₁ = (out, s') ∧
        s.Weathers key rs ts s' ∧ Ended b s.now o.record rs ts := by
    intro e ts s₁ elapsed hw hren hts
    obtain ⟨persisted, s₂, rs, hp, hw₂, hrs⟩ := b.persist_weathers key e called s₁
    have hended : Ended b s.now o.record rs ts := by
      rcases hrs with rfl | rfl
      · exact .dropped hts
      · exact .kept hren hts
    have hw₂ := hw.trans hw₂
    rw [List.append_nil, List.nil_append] at hw₂
    cases persisted with
    | error f => exact ⟨_, s₂, rs, ts, play_bind_error s₁ hp _, hw₂, hended⟩
    | ok u =>
        rw [play_bind_ok s₁ hp]
        obtain ⟨told, s₃, ht, hw₃⟩ := b.tell_weathers (occurrence elapsed) key s₂
        have hw₃ := hw₂.trans hw₃
        cases told with
        | error f => exact ⟨_, s₃, rs, ts, play_bind_error s₂ ht _, hw₃, hended⟩
        | ok u =>
            rw [play_bind_ok s₂ ht, play_ofExcept]
            exact ⟨result, s₃, rs, ts, rfl, hw₃, hended⟩
  rw [play_bind_ok s (play_elapsed o s)]
  obtain ⟨advanced, s₁, rs, ts, ha, hw, hadv, hrs⟩ := b.advance_weathers key o.record false s
  obtain rfl := hrs rfl
  cases hadv with
  | failed => exact ⟨_, s₁, _, _, play_bind_error s ha _, hw, .dropped nofun⟩
  | interrupted hc _ =>
      refine ⟨_, s₁, _, _, play_bind_error s ha _, hw, .dropped fun p hp => ?_⟩
      rw [List.mem_singleton.1 hp]
      exact owed_of_change hc
  | still hc =>
      rw [play_bind_ok s ha]
      exact hsaves _ hw (by rw [renewed, hc]; rfl) nofun
  | moved hc hsaved =>
      cases hsaved
      rw [play_bind_ok s ha]
      refine hsaves _ hw (by rw [renewed, hc]; rfl) fun p hp => ?_
      rw [List.mem_singleton.1 hp]
      exact owed_of_change hc

theorem finish_weathers (b : Breaker) (key : String) (o : Opening) (result : Except Failure Json)
    (s : Scene) :
    ∃ out s' rs ts, (b.finish key o result).play s = (out, s') ∧ s.Weathers key rs ts s' ∧
      Ended b s.now o.record rs ts := by
  cases result with
  | ok v => exact b.finish_tail_weathers key o none (.succeeded key) (.ok v) s
  | error f =>
      cases hf : f.isOrdinary with
      | false =>
          exact ⟨_, s, _, _, b.finish_of_not_ordinary key o hf s, .refl key s, .dropped nofun⟩
      | true =>
          rw [finish]
          simp only [hf, if_true]
          exact b.finish_tail_weathers key o (some f) (.ofFailure key o.status f) (.error f) s

theorem conclude_weathers (b : Breaker) (key : String) (o : Opening) (result : Except Failure Json)
    (s : Scene) :
    ∃ out s' rs ts, (b.conclude key o result).play s = (out, s') ∧ s.Weathers key rs ts s' ∧
      Ended b s.now (Record.settle b.config o.status o.record result).1 rs ts :=
  b.finish_weathers key { o with record := (Record.settle b.config o.status o.record result).1 }
    (Record.settle b.config o.status o.record result).2 s

/-- How the first part of a call comes out: its record cannot be loaded or advanced, or the call goes on
from the record that was advanced. -/
inductive Opened (b : Breaker) (key : String) (s : Scene) :
    Except Failure (Opening × Except Failure Unit) → List Record → List (Status × Status) → Prop
  | unloaded {f : Failure} : Opened b key s (.error f) [] []
  | unadvanced {x : Option Record} {r : Record} {f : Failure} {rs : List Record}
      {ts : List (Status × Status)} : s.store.lookup key = .ok x → b.loaded s.now (.ok x) = .ok r →
      Advanced b s.now r (.error f) rs ts → Opened b key s (.error f) rs ts
  | opened {x : Option Record} {r e : Record} {rs : List Record} {ts : List (Status × Status)} :
      s.store.lookup key = .ok x → b.loaded s.now (.ok x) = .ok r →
      Advanced b s.now r (.ok e) rs ts →
      Opened b key s (.ok (b.opening key s.now s.monotonic e,
        (Record.permit b.config e.status key s.now e).2)) rs ts

theorem begin_weathers (b : Breaker) (key : String) (s : Scene) :
    ∃ out s' rs ts, (b.begin key).play s = (out, s') ∧ s.Weathers key rs ts s' ∧
      Opened b key s out rs ts := by
  obtain ⟨out, s₁, hload, hw₁, hout⟩ := b.load_weathers key s
  cases out with
  | error f => exact ⟨_, s₁, _, _, play_bind_error s hload _, hw₁, .unloaded⟩
  | ok r =>
      obtain ⟨x, hx, hr⟩ := hout r rfl
      obtain ⟨out, s₂, rs, ts, ha, hw₂, hadv, -⟩ := b.advance_weathers key r true s₁
      have hw := hw₁.trans hw₂
      rw [List.append_nil, List.append_nil] at hw
      rw [hw₁.now] at hadv
      rw [begin, play_bind_ok s hload]
      cases out with
      | error f => exact ⟨_, s₂, rs, ts, play_bind_error s₁ ha _, hw, .unadvanced hx hr hadv⟩
      | ok e =>
          rw [play_bind_ok s₁ ha, begin_tail, hw.now, hw.monotonic]
          exact ⟨_, s₂, rs, ts, rfl, hw, .opened hx hr hadv⟩

inductive Forced (b : Breaker) (key : String) (target : Status) (s : Scene) :
    Except Failure (Status × Record) → List Record → Prop
  | failed {f : Failure} : Forced b key target s (.error f) []
  | kept {x : Option Record} {r e : Record} : s.store.lookup key = .ok x →
      b.loaded s.now (.ok x) = .ok r → b.forced target s.now r = .ok e →
      Forced b key target s (.ok (r.status, e.next)) [e.next]

theorem overwriteOnce_weathers (b : Breaker) (key : String) (target : Status) (s : Scene) :
    ∃ out s' rs, (b.overwriteOnce key target).play s = (out, s') ∧ s.Weathers key rs [] s' ∧
      Forced b key target s out rs := by
  obtain ⟨out, s₁, hload, hw₁, hout⟩ := b.load_weathers key s
  cases out with
  | error f => exact ⟨_, s₁, _, play_bind_error s hload _, hw₁, .failed⟩
  | ok r =>
      obtain ⟨x, hx, hr⟩ := hout r rfl
      rw [play_overwriteOnce hload, hw₁.now]
      cases he : b.forced target s.now r with
      | error err => exact ⟨_, s₁, _, rfl, hw₁, .failed⟩
      | ok e =>
          obtain ⟨out, s₂, rs, hp, hw₂, hwritten⟩ := write_weathers key e s₁
          have hw := hw₁.trans hw₂
          rw [List.append_nil, List.append_nil] at hw
          dsimp only
          rw [play_map, hp]
          rcases hwritten with ⟨rfl, rfl⟩ | ⟨⟨f, rfl⟩, rfl⟩
          · exact ⟨_, s₂, _, rfl, hw, .kept hx hr he⟩
          · exact ⟨_, s₂, _, rfl, hw, .failed⟩

theorem forced_of_play {target : Status} {out : Except Failure (Status × Record)}
    (h : (b.overwriteOnce key target).play s = (out, s')) :
    ∃ rs, s.Weathers key rs [] s' ∧ Forced b key target s out rs := by
  obtain ⟨out', s₁, rs, hp, hw, hf⟩ := b.overwriteOnce_weathers key target s
  rw [h] at hp
  cases hp
  exact ⟨rs, hw, hf⟩

theorem confirm_weathers (b : Breaker) (key : String) (target previous : Status) (s : Scene) :
    ∃ out s', (b.confirm key target previous).play s = (out, s') ∧
      s.Weathers key [] (if previous = target then [] else [(previous, target)]) s' := by
  unfold confirm
  split
  · exact ⟨_, s, rfl, .refl key s⟩
  · exact b.announce_weathers key previous target s

theorem backOff_weathers (b : Breaker) (key : String) (target : Status) (attempt : Nat) (s : Scene) :
    s.Weathers key [] [] ((b.backOff key target attempt).play s).2 :=
  ⟨rfl, rfl, .refl, rfl, fun _ => by rw [ite_self, List.nil_append]; rfl⟩

inductive Called (b : Breaker) (key : String) (w : Work) (s : Scene) :
    Except Failure Stage → Scene → Prop
  | unbegun {f : Failure} {rs : List Record} {ts : List (Status × Status)} {s' : Scene} :
      Opened b key s (.error f) rs ts → s.Weathers key rs ts s' → Called b key w s (.error f) s'
  | rejected {o : Opening} {f : Failure} {rs rs' : List Record} {ts ts' : List (Status × Status)}
      {s₁ s' : Scene} {out : Except Failure Json} : Opened b key s (.ok (o, .error f)) rs ts →
      s.Weathers key rs ts s₁ → Ended b s.now o.record rs' ts' → s₁.Weathers key rs' ts' s' →
      Called b key w s (out.map Stage.ended) s'
  | failed {o : Opening} {f : Failure} {rs rs' : List Record} {ts ts' : List (Status × Status)}
      {s₁ s₂ s' : Scene} {out : Except Failure Json} : Opened b key s (.ok (o, .ok ())) rs ts →
      s.Weathers key rs ts s₁ → (w.start key).play s₁ = (.error f, s₂) →
      Started key s₁ (.error f) s₂ → SameLogged s₁ s₂ → Ended b s.now
        (Record.settle b.config o.status o.record (.error f : Except Failure Json)).1 rs' ts' →
      s₂.Weathers key rs' ts' s' → Called b key w s (out.map Stage.ended) s'
  | running {o : Opening} {rs : List Record} {ts : List (Status × Status)} {s₁ s' : Scene} :
      Opened b key s (.ok (o, .ok ())) rs ts → s.Weathers key rs ts s₁ → Started key s₁ (.ok ()) s' →
      SameLogged s₁ s' → Called b key w s (.ok (.running o)) s'

theorem enterCall_called (b : Breaker) (key : String) (w : Work) (s : Scene) :
    ∃ out s', (b.enterCall key w).play s = (out, s') ∧ Called b key w s out s' := by
  obtain ⟨out, s₁, rs, ts, hp, hw, hopened⟩ := b.begin_weathers key s
  rw [play_enterCall w hp]
  cases out with
  | error f => exact ⟨_, s₁, rfl, .unbegun hopened hw⟩
  | ok p =>
      obtain ⟨o, permitted⟩ := p
      cases permitted with
      | error f =>
          obtain ⟨out, s', rs', ts', hf, hw', hended⟩ := b.finish_weathers key o (.error f) s₁
          rw [goOn, play_map, hf]
          exact ⟨_, s', rfl, .rejected hopened hw (hw.now ▸ hended) hw'⟩
      | ok u =>
          obtain ⟨started, s₂, hst, hstarted⟩ := start_started w key s₁
          have hlogged : SameLogged s₁ s₂ := by
            have hn := w.start_sameNews key s₁
            rw [hst] at hn
            exact sameLogged_of_sameNews hn
          rw [goOn, hst]
          cases started with
          | ok u => exact ⟨_, s₂, rfl, .running hopened hw hstarted hlogged⟩
          | error f =>
              obtain ⟨out, s', rs', ts', hf, hw', hended⟩ := b.conclude_weathers key o (.error f) s₂
              rw [(hstarted.failed f rfl).2.1, hw.now] at hended
              dsimp only
              rw [play_map, hf]
              exact ⟨_, s', rfl, .failed hopened hw hst hstarted hlogged hended hw'⟩

theorem called_of_play {w : Work} {out : Except Failure Stage}
    (h : (b.enterCall key w).play s = (out, s')) : Called b key w s out s' := by
  obtain ⟨out', s₁, hp, hc⟩ := b.enterCall_called key w s
  rw [h] at hp
  cases hp
  exact hc

theorem Opened.version {o : Opening} {permitted : Except Failure Unit} {rs : List Record}
    {ts : List (Status × Status)} (h : Opened b key s (.ok (o, permitted)) rs ts)
    (hg : s.store.Grows key rs s'.store) :
    ∃ y, s'.store.lookup key = .ok y ∧ o.record.version = Record.versionOf y := by
  cases h with
  | opened hx hload hadv =>
      refine ⟨_, hg.lookup hx, Record.version_permit.trans ?_⟩
      cases hadv with
      | still => exact versionOf_loaded hload
      | moved hc hsaved =>
          cases hsaved with
          | kept => rfl
          | dropped => exact (version_change hc).trans (versionOf_loaded hload)

/-- A call keeps records under its key only, and starts no function but its own. -/
theorem Called.grows {w : Work} {out : Except Failure Stage} (h : Called b key w s out s') :
    (s'.starts = s.starts ∨ s'.starts = key :: s.starts) ∧
      ∃ rs, s.store.Grows key rs s'.store ∧ ∀ o, out = .ok (.running o) →
        ∃ y, s'.store.lookup key = .ok y ∧ o.record.version = Record.versionOf y := by
  cases h with
  | unbegun _ hw => exact ⟨.inl hw.starts, _, hw.store, fun _ ho => by cases ho⟩
  | rejected _ hw _ hw' =>
      exact ⟨.inl (hw'.starts.trans hw.starts), _, hw.store.trans hw'.store,
        fun o ho => absurd ho ended_ne_running⟩
  | failed _ hw _ hstarted _ _ hw' =>
      refine ⟨.inr (by rw [hw'.starts, hstarted.starts, hw.starts]), _,
        (hstarted.store ▸ hw.store).trans hw'.store, fun o ho => absurd ho ended_ne_running⟩
  | running ho hw hstarted _ =>
      have hg := hstarted.store ▸ hw.store
      refine ⟨.inr (by rw [hstarted.starts, hw.starts]), _, hg, fun o he => ?_⟩
      cases he
      exact ho.version hg

end Breaker

end KeyedBreaker
