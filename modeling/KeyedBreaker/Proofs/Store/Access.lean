import KeyedBreaker.Proofs.Scene.Play
import KeyedBreaker.Proofs.Store.View
import KeyedBreaker.Store.Access

namespace KeyedBreaker

structure Scene.Alike (s s' : Scene) : Prop where
  now : s'.now = s.now
  monotonic : s'.monotonic = s.monotonic
  store : s'.store = s.store

namespace Scene

variable {s s' s'' : Scene}

theorem Alike.refl (s : Scene) : s.Alike s := ⟨rfl, rfl, rfl⟩

theorem Alike.trans (h : s.Alike s') (h' : s'.Alike s'') : s.Alike s'' :=
  ⟨h'.now.trans h.now, h'.monotonic.trans h.monotonic, h'.store.trans h.store⟩

theorem alike_seeing (es : List Event) (s : Scene) : s.Alike (s.seeing es) := ⟨rfl, rfl, rfl⟩

def keeping (key : String) (r : Record) (s : Scene) : Scene :=
  { s with store := s.store.kept key r }

variable (key : String) (r : Record) (s : Scene)

@[simp] theorem keeping_now : (s.keeping key r).now = s.now := rfl

@[simp] theorem keeping_monotonic : (s.keeping key r).monotonic = s.monotonic := rfl

@[simp] theorem keeping_store : (s.keeping key r).store = s.store.kept key r := rfl

@[simp] theorem keeping_faults : (s.keeping key r).faults = s.faults := rfl

@[simp] theorem keeping_events : (s.keeping key r).events = s.events := rfl

theorem Alike.keeping {s s' : Scene} (h : s.Alike s') :
    (s.keeping key r).Alike (s'.keeping key r) :=
  ⟨h.now, h.monotonic, congrArg (·.kept key r) h.store⟩

/-- The failure that the next access to the client meets, as the store raises it: what is ordinary
becomes a failure of the store. -/
def outage? (access : Access) (key operation : String) (s : Scene) : Option Failure :=
  match s.store, s.faults access with
  | .shared .., .raise f :: _ => some (if f.isOrdinary then .storeFrom key operation f else f)
  | _, _ => none

def answering {α : Type} (access : Access) (key operation : String) (s : Scene)
    (answer : Except Failure α) : Except Failure α :=
  match s.outage? access key operation with
  | some f => .error f
  | none => answer

inductive Refuses (key : String) (r : Record) (s : Scene) : Failure → Prop
  | unread {f} : s.outage? .clientRead key "get" = some f → Refuses key r s f
  | undecodable {keyPrefix client content} : s.store = .shared keyPrefix client →
      client.content? (keyPrefix ++ key) = some content → content.decode? = none →
      Refuses key r s (.store key "get" "undecodable record" (some .undecodable))
  | stale {x} : s.store.lookup key = .ok x → r.version ≠ Record.versionOf x →
      Refuses key r s (.stale key r.version (Record.versionOf x))
  | unwritten {f} : s.outage? .clientWrite key "set" = some f → Refuses key r s f

end Scene

namespace Store

def readEvents (s : Store) (key : String) : List Event :=
  match s with
  | .memory _ => []
  | .shared keyPrefix _ => [.clientRead (keyPrefix ++ key)]

def writeEvents (s : Store) (key : String) : List Event :=
  match s with
  | .memory _ => []
  | .shared keyPrefix _ => [.clientWrite (keyPrefix ++ key)]

end Store

namespace Act

variable (key : String) (r : Record) (s : Scene)

theorem play_get_bind {α : Type} (g : Scene → Act α) :
    ((get : Act Scene) >>= g).play s = (g s).play s := play_bind_ok s (play_get s) g

theorem nextFault_cases (a : Access) : ∃ f s', (nextFault a).play s = (.ok f, s') ∧ s.Alike s' := by
  rw [nextFault, play_get_bind]
  cases s.faults a with
  | nil => exact ⟨.pass, s, rfl, .refl s⟩
  | cons f fs => exact ⟨f, _, rfl, rfl, rfl, rfl⟩

theorem play_nextFault {s : Scene} {a : Access} (h : s.faults a = []) :
    (nextFault a).play s = (.ok .pass, s) := by
  rw [nextFault, play_get_bind, h]
  rfl

theorem play_meetClient {s : Scene} {a : Access} (h : s.faults a = []) (operation : String) :
    (meetClient a key operation).play s = (.ok (), s) := by
  rw [meetClient, play_bind_ok s (play_nextFault h)]
  rfl

theorem play_answer (content : Option Content) :
    (match content with
      | none => pure none
      | some content =>
        match content.decode? with
        | some r => pure (some r)
        | none => throw (.store key "get" "undecodable record" (some .undecodable)) :
        Act (Option Record)).play s = (Store.answer key content, s) := by
  cases content with
  | none => rfl
  | some content =>
      cases h : content.decode? <;> simp [Store.answer, h]

theorem meetClient_answering (a : Access) (operation : String) (hs : s.store.hasLocks = false) :
    ∃ s', (meetClient a key operation).play s = (s.answering a key operation (.ok ()), s') ∧
      s.Alike s' ∧ ∀ other, other ≠ a → s'.faults other = s.faults other := by
  cases hst : s.store with
  | memory writes =>
      rw [hst] at hs
      cases hs
  | shared keyPrefix client =>
      rw [Scene.answering, Scene.outage?, hst, meetClient]
      cases hf : s.faults a with
      | nil => exact ⟨s, by rw [play_bind_ok s (play_nextFault hf)]; rfl, .refl s, fun _ _ => rfl⟩
      | cons fault fs =>
          let later : Scene := { s with faults := fun b => if b = a then fs else s.faults b }
          have hnext : (nextFault a).play s = (.ok fault, later) := by
            rw [nextFault, play_get_bind, hf]
            rfl
          have hothers : ∀ other, other ≠ a → later.faults other = s.faults other :=
            fun other hne => if_neg hne
          rw [play_bind_ok s hnext]
          cases fault <;> exact ⟨later, rfl, ⟨rfl, rfl, rfl⟩, hothers⟩

theorem fetch_answering :
    ∃ s', (fetch key).play s = (s.answering .clientRead key "get" (s.store.lookup key), s') ∧
      s.Alike s' ∧ s'.faults .clientWrite = s.faults .clientWrite := by
  rw [fetch, play_get_bind]
  cases hs : s.store with
  | memory writes =>
      refine ⟨s, ?_, .refl s, rfl⟩
      rw [Scene.answering, Scene.outage?, hs]
      rfl
  | shared keyPrefix client =>
      let seen := s.seeing [.clientRead (keyPrefix ++ key)]
      have he : (emit (.clientRead (keyPrefix ++ key))).play s = (.ok (), seen) := rfl
      have hseen : seen.store.hasLocks = false := by
        rw [Scene.seeing_store, hs]
        rfl
      have hsame : seen.outage? .clientRead key "get" = s.outage? .clientRead key "get" := rfl
      obtain ⟨s', hm, ha, hfaults⟩ := meetClient_answering key seen .clientRead "get" hseen
      refine ⟨s', ?_, (Scene.alike_seeing _ s).trans ha, hfaults .clientWrite (by decide)⟩
      dsimp only
      rw [Scene.answering, hsame] at hm
      rw [play_bind_ok s he, Scene.answering]
      cases ho : s.outage? .clientRead key "get" with
      | some f =>
          rw [ho] at hm
          exact play_bind_error seen hm _
      | none =>
          rw [ho] at hm
          rw [play_bind_ok seen hm]
          exact play_answer key s' _

theorem keep_answering :
    ∃ s', (keep key r).play s = (s.answering .clientWrite key "set" (.ok ()), s') ∧
      ((s.outage? .clientWrite key "set" = none ∧ (s.keeping key r).Alike s') ∨
        (∃ f, s.outage? .clientWrite key "set" = some f) ∧ s.Alike s') := by
  rw [keep, play_get_bind]
  cases hs : s.store with
  | memory writes =>
      have hnone : s.outage? .clientWrite key "set" = none := by rw [Scene.outage?, hs]
      refine ⟨s.keeping key r, ?_, .inl ⟨hnone, .refl _⟩⟩
      rw [Scene.answering, hnone, Scene.keeping, hs]
      rfl
  | shared keyPrefix client =>
      let seen := s.seeing [.clientWrite (keyPrefix ++ key)]
      have he : (emit (.clientWrite (keyPrefix ++ key))).play s = (.ok (), seen) := rfl
      have hseen : seen.store.hasLocks = false := by
        rw [Scene.seeing_store, hs]
        rfl
      have hsame : seen.outage? .clientWrite key "set" = s.outage? .clientWrite key "set" := rfl
      obtain ⟨s', hm, ha, -⟩ := meetClient_answering key seen .clientWrite "set" hseen
      have ha := (Scene.alike_seeing [.clientWrite (keyPrefix ++ key)] s).trans ha
      dsimp only
      rw [Scene.answering, hsame] at hm
      rw [play_bind_ok s he, Scene.answering]
      cases ho : s.outage? .clientWrite key "set" with
      | some f =>
          rw [ho] at hm
          exact ⟨s', play_bind_error seen hm _, .inr ⟨⟨f, rfl⟩, ha⟩⟩
      | none =>
          rw [ho] at hm
          rw [play_bind_ok seen hm]
          refine ⟨_, rfl, .inl ⟨rfl, ha.now, ha.monotonic, ?_⟩⟩
          rw [Scene.keeping, hs]
          rfl

theorem fetch_cases :
    ∃ s', s.Alike s' ∧
      ((fetch key).play s = (s.store.lookup key, s') ∨ ∃ f, (fetch key).play s = (.error f, s')) := by
  obtain ⟨s', hf, ha, -⟩ := fetch_answering key s
  refine ⟨s', ha, ?_⟩
  rw [hf, Scene.answering]
  split
  · exact .inr ⟨_, rfl⟩
  · exact .inl rfl

theorem play_fetch {s : Scene} (h : s.faults .clientRead = []) :
    (fetch key).play s = (s.store.lookup key, s.seeing (s.store.readEvents key)) := by
  rw [fetch, play_get_bind]
  cases hs : s.store with
  | memory writes => rfl
  | shared keyPrefix client =>
      let seen := s.seeing [.clientRead (keyPrefix ++ key)]
      have he : (emit (.clientRead (keyPrefix ++ key))).play s = (.ok (), seen) := rfl
      dsimp only
      rw [play_bind_ok s he, play_bind_ok seen (play_meetClient (s := seen) key h "get")]
      exact play_answer key seen _

theorem play_keep {s : Scene} (h : s.faults .clientWrite = []) :
    (keep key r).play s = (.ok (), (s.keeping key r).seeing (s.store.writeEvents key)) := by
  rw [keep, play_get_bind, Scene.keeping]
  cases hs : s.store with
  | memory writes => rfl
  | shared keyPrefix client =>
      let seen := s.seeing [.clientWrite (keyPrefix ++ key)]
      have he : (emit (.clientWrite (keyPrefix ++ key))).play s = (.ok (), seen) := rfl
      dsimp only
      rw [play_bind_ok s he, play_bind_ok seen (play_meetClient (s := seen) key h "set")]
      rfl

variable {key r s} {x : Option Record} {s₁ : Scene}

theorem play_put_current (hf : (fetch key).play s = (.ok x, s₁))
    (hv : r.version = Record.versionOf x) :
    (put key r).play s = (do keep key r.next; pure r.next : Act Record).play s₁ := by
  have hn : ({ r with version := Record.versionOf x + 1 } : Record) = r.next := by
    rw [Record.next, hv]
  have hpos : (x.map (·.version)).getD 0 = Record.versionOf x := rfl
  rw [put, play_bind_ok s hf]
  dsimp only
  rw [hpos, if_pos hv, hn]

theorem play_put_stale (hf : (fetch key).play s = (.ok x, s₁))
    (hv : r.version ≠ Record.versionOf x) :
    (put key r).play s = (.error (.stale key r.version (Record.versionOf x)), s₁) := by
  have hpos : (x.map (·.version)).getD 0 = Record.versionOf x := rfl
  rw [put, play_bind_ok s hf]
  dsimp only
  rw [hpos, if_neg hv]
  rfl

variable (key r s)

structure Settable (key : String) (r : Record) (s : Scene) : Prop where
  read : s.outage? .clientRead key "get" = none
  written : s.outage? .clientWrite key "set" = none
  current : ∃ x, s.store.lookup key = .ok x ∧ r.version = Record.versionOf x

/-- A set comes to what the rule of a register says, and nothing that fails changes the store. -/
theorem put_answers : ∃ s',
    (Settable key r s ∧ (put key r).play s = (.ok r.next, s') ∧ (s.keeping key r.next).Alike s') ∨
      ∃ f, ¬ Settable key r s ∧ (put key r).play s = (.error f, s') ∧ s.Refuses key r f ∧ s.Alike s' := by
  obtain ⟨s₁, hf, ha, hfaults⟩ := fetch_answering key s
  have hwrite : s₁.outage? .clientWrite key "set" = s.outage? .clientWrite key "set" := by
    rw [Scene.outage?, Scene.outage?, ha.store, hfaults]
  rw [Scene.answering] at hf
  cases hread : s.outage? .clientRead key "get" with
  | some f =>
      rw [hread] at hf
      refine ⟨s₁, .inr ⟨f, fun h => ?_, play_bind_error s hf _, .unread hread, ha⟩⟩
      rw [h.read] at hread
      cases hread
  | none =>
      rw [hread] at hf
      cases hx : s.store.lookup key with
      | error f =>
          rw [hx] at hf
          obtain ⟨keyPrefix, client, content, hs, hc, hd, rfl⟩ := s.store.lookup_eq_error_iff.1 hx
          refine ⟨s₁, .inr ⟨_, fun h => ?_, play_bind_error s hf _, .undecodable hs hc hd, ha⟩⟩
          obtain ⟨x, hx', -⟩ := h.current
          rw [hx] at hx'
          cases hx'
      | ok x =>
          rw [hx] at hf
          by_cases hv : r.version = Record.versionOf x
          · rw [play_put_current hf hv]
            obtain ⟨s₂, hk, ⟨ho, ha'⟩ | ⟨⟨f, ho⟩, ha'⟩⟩ := keep_answering key r.next s₁
            · rw [Scene.answering, ho] at hk
              refine ⟨s₂, .inl ⟨⟨hread, hwrite ▸ ho, x, hx, hv⟩, play_bind_ok s₁ hk _, ?_⟩⟩
              exact (ha.keeping key r.next).trans ha'
            · rw [Scene.answering, ho] at hk
              rw [hwrite] at ho
              refine ⟨s₂, .inr ⟨f, fun h => ?_, play_bind_error s₁ hk _, .unwritten ho, ha.trans ha'⟩⟩
              rw [h.written] at ho
              cases ho
          · refine ⟨s₁, .inr ⟨_, fun h => ?_, play_put_stale hf hv, .stale hx hv, ha⟩⟩
            obtain ⟨y, hy, hv'⟩ := h.current
            rw [hx] at hy
            cases hy
            exact hv hv'

theorem put_cases :
    ∃ s', (∃ x, s.store.lookup key = .ok x ∧ r.version = Record.versionOf x ∧
        (put key r).play s = (.ok r.next, s') ∧ (s.keeping key r.next).Alike s') ∨
      ∃ f, (put key r).play s = (.error f, s') ∧ s.Alike s' := by
  obtain ⟨s', ⟨hset, hp, ha⟩ | ⟨f, -, hp, -, ha⟩⟩ := put_answers key r s
  · obtain ⟨x, hx, hv⟩ := hset.current
    exact ⟨s', .inl ⟨x, hx, hv, hp, ha⟩⟩
  · exact ⟨s', .inr ⟨f, hp, ha⟩⟩

theorem readRecord_cases :
    ∃ s', s.Alike s' ∧ ((readRecord key).play s = (s.store.lookup key, s') ∨
      ∃ f, (readRecord key).play s = (.error f, s')) := by
  let seen := s.seeing [.storeRead key]
  have he : (emit (.storeRead key)).play s = (.ok (), seen) := rfl
  obtain ⟨fault, s₁, hn, ha⟩ := nextFault_cases seen .read
  have ha := (Scene.alike_seeing [.storeRead key] s).trans ha
  rw [readRecord, play_bind_ok s he, play_bind_ok seen hn]
  cases fault with
  | raise f => exact ⟨s₁, ha, .inr ⟨f, rfl⟩⟩
  | pass | stale =>
      obtain ⟨s₂, ha', hf | ⟨f, hf⟩⟩ := fetch_cases key s₁
      · rw [ha.store] at hf
        exact ⟨s₂, ha.trans ha', .inl hf⟩
      · exact ⟨s₂, ha.trans ha', .inr ⟨f, hf⟩⟩

theorem play_readRecord {s : Scene} (h : s.Quiet) :
    (readRecord key).play s =
      (s.store.lookup key, s.seeing (s.store.readEvents key ++ [.storeRead key])) := by
  let seen := s.seeing [.storeRead key]
  have he : (emit (.storeRead key)).play s = (.ok (), seen) := rfl
  have hq : seen.Quiet := h
  rw [readRecord, play_bind_ok s he, play_bind_ok seen (play_nextFault (hq .read)),
    ← Scene.seeing_seeing]
  exact play_fetch key (hq _)

theorem writeRecord_cases :
    ∃ s', (∃ x, s.store.lookup key = .ok x ∧ r.version = Record.versionOf x ∧
        (writeRecord key r).play s = (.ok r.next, s') ∧ (s.keeping key r.next).Alike s') ∨
      ∃ f, (writeRecord key r).play s = (.error f, s') ∧ s.Alike s' := by
  let seen := s.seeing [.storeWrite key r.version]
  have he : (emit (.storeWrite key r.version)).play s = (.ok (), seen) := rfl
  obtain ⟨fault, s₁, hn, ha⟩ := nextFault_cases seen .write
  have ha := (Scene.alike_seeing [.storeWrite key r.version] s).trans ha
  rw [writeRecord, play_bind_ok s he, play_bind_ok seen hn]
  cases fault with
  | raise f => exact ⟨s₁, .inr ⟨f, rfl, ha⟩⟩
  | stale v => exact ⟨s₁, .inr ⟨_, rfl, ha⟩⟩
  | pass =>
      obtain ⟨s₂, ⟨x, hx, hv, hp, ha'⟩ | ⟨f, hp, ha'⟩⟩ := put_cases key r s₁
      · rw [ha.store] at hx
        exact ⟨s₂, .inl ⟨x, hx, hv, hp, (ha.keeping key r.next).trans ha'⟩⟩
      · exact ⟨s₂, .inr ⟨f, hp, ha.trans ha'⟩⟩

def writeSeen (s : Scene) (key : String) (version : Int) : List Event :=
  s.store.readEvents key ++ [.storeWrite key version]

theorem play_put {s : Scene} {key : String} {x : Option Record} (h : s.Quiet)
    (hx : s.store.lookup key = .ok x) {r : Record} (hv : r.version = Record.versionOf x) :
    (put key r).play s = (.ok r.next, (s.keeping key r.next).seeing
      (s.store.writeEvents key ++ s.store.readEvents key)) := by
  have hf : (fetch key).play s = (.ok x, s.seeing (s.store.readEvents key)) := by
    rw [play_fetch key (h _), hx]
  have hq : (s.seeing (s.store.readEvents key)).Quiet := h
  rw [play_put_current hf hv, play_bind_ok _ (play_keep key r.next (hq _)), play_pure,
    ← Scene.seeing_seeing]
  rfl

theorem play_writeRecord {s : Scene} {key : String} {x : Option Record} (h : s.Quiet)
    (hx : s.store.lookup key = .ok x) {r : Record} (hv : r.version = Record.versionOf x) :
    (writeRecord key r).play s = (.ok r.next, (s.keeping key r.next).seeing
      (s.store.writeEvents key ++ writeSeen s key r.version)) := by
  let seen := s.seeing [.storeWrite key r.version]
  have he : (emit (.storeWrite key r.version)).play s = (.ok (), seen) := rfl
  have hq : seen.Quiet := h
  rw [writeRecord, play_bind_ok s he, play_bind_ok seen (play_nextFault (hq .write)), writeSeen,
    ← List.append_assoc, ← Scene.seeing_seeing]
  exact play_put hq hx hv

theorem play_writeRecord_stale {s : Scene} {key : String} {x : Option Record} (h : s.Quiet)
    (hx : s.store.lookup key = .ok x) {r : Record} (hv : r.version ≠ Record.versionOf x) :
    (writeRecord key r).play s = (.error (.stale key r.version (Record.versionOf x)),
      s.seeing (writeSeen s key r.version)) := by
  let seen := s.seeing [.storeWrite key r.version]
  have he : (emit (.storeWrite key r.version)).play s = (.ok (), seen) := rfl
  have hq : seen.Quiet := h
  have hf : (fetch key).play seen = (.ok x, s.seeing (writeSeen s key r.version)) := by
    rw [play_fetch key (hq _), Scene.seeing_store, hx, Scene.seeing_seeing]
    rfl
  rw [writeRecord, play_bind_ok s he, play_bind_ok seen (play_nextFault (hq .write))]
  exact play_put_stale hf hv

end Act

end KeyedBreaker
