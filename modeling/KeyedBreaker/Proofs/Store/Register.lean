import KeyedBreaker.Proofs.Store.Access

namespace KeyedBreaker

namespace Store

variable {s : Store} {key : String}

theorem entry?_kept_of_ne (r : Record) {name : String} (h : name ≠ s.nameOf key) :
    Store.entry? (s.kept key r) name = s.entry? name := by
  have hb : (name == s.nameOf key) = false := beq_false_of_ne h
  cases s with
  | memory writes =>
      rw [kept, entry?, List.lookup_cons, show (name == key) = false from hb]
      rfl
  | shared keyPrefix client =>
      rw [kept, entry?, Client.content?, Client.write, List.lookup_cons,
        show (name == keyPrefix ++ key) = false from hb]
      rfl

theorem lookup_overwrite_of_ne {name : String} (h : name ≠ s.nameOf key) (content : Option Content) :
    (s.overwrite name content).lookup key = s.lookup key := by
  cases s with
  | memory writes => rfl
  | shared keyPrefix client =>
      have hb : (keyPrefix ++ key == name) = false := beq_false_of_ne fun he => h he.symm
      rw [overwrite, lookup_shared, lookup_shared, Client.content?, Client.write, List.lookup_cons, hb]
      rfl

/-- What can be done to a store: its own two operations, and what others do to its client. -/
inductive Use where
  | get (key : String)
  | set (key : String) (r : Record)
  | overwrite (name : String) (content : Option Content)

namespace Use

open Act

def act : Use → Act (Option Record)
  | .get key => fetch key
  | .set key r => some <$> put key r
  | .overwrite name content => do
    Act.overwrite name content
    pure none

def IsOwn : Use → Prop
  | .overwrite .. => False
  | _ => True

/-- Whether it puts anything under the key: a set that succeeds does, or someone else. -/
def Writes (key : String) (s : Scene) : Use → Prop
  | .get _ => False
  | .set k r => k = key ∧ ((put k r).play s).1.isOk
  | .overwrite name _ => name = s.store.nameOf key

end Use

end Store

open Act Store

namespace Scene

def afterUses (s : Scene) (us : List Use) : Scene := us.foldl (fun s u => (u.act.play s).2) s

/-- What the uses of a store answer, one after another. -/
def replies (s : Scene) : List Use → List (Except Failure (Option Record))
  | [] => []
  | u :: us => (u.act.play s).1 :: (u.act.play s).2.replies us

/-- Nothing is put under the key. -/
def Undisturbed (key : String) (s : Scene) : List Use → Prop
  | [] => True
  | u :: us => ¬ u.Writes key s ∧ (u.act.play s).2.Undisturbed key us

end Scene

namespace Act

variable (key : String) (r : Record) (s : Scene)

variable {key r s} {u : Use} {us : List Use} {x : Option Record}

theorem lookup_of_not_writes (h : ¬ u.Writes key s) :
    (u.act.play s).2.store.lookup key = s.store.lookup key := by
  cases u with
  | get k =>
      obtain ⟨s', hf, ha, -⟩ := fetch_answering k s
      rw [Use.act, hf, ha.store]
  | set k r =>
      obtain ⟨s', ⟨-, hp, ha⟩ | ⟨f, -, hp, -, ha⟩⟩ := put_answers k r s
      · have hk : key ≠ k := by
          rintro rfl
          refine h ⟨rfl, ?_⟩
          rw [hp]
          rfl
        rw [Use.act, play_map, hp]
        dsimp only
        rw [ha.store, Scene.keeping_store, lookup_kept_of_ne _ _ hk]
      · rw [Use.act, play_map, hp]
        dsimp only
        rw [ha.store]
  | overwrite name content => exact lookup_overwrite_of_ne h content

theorem lookup_afterUses (h : s.Undisturbed key us) :
    (s.afterUses us).store.lookup key = s.store.lookup key := by
  induction us generalizing s with
  | nil => rfl
  | cons u us ih => exact (ih h.2).trans (lookup_of_not_writes h.1)

theorem lookup_of_fetch (h : ((fetch key).play s).1 = .ok x) : s.store.lookup key = .ok x := by
  obtain ⟨s', hf, -, -⟩ := fetch_answering key s
  rw [hf, Scene.answering] at h
  split at h
  · cases h
  · exact h

def Reached (key : String) (v : Int) (s : Scene) : Prop :=
  ∀ x, s.store.lookup key = .ok x → v ≤ Record.versionOf x

theorem Reached.act {v : Int} (h : Reached key v s) (hu : u.IsOwn) : Reached key v (u.act.play s).2 := by
  by_cases hw : u.Writes key s
  · cases u with
    | get k => exact hw.elim
    | overwrite name content => exact hu.elim
    | set k r =>
        obtain ⟨rfl, hok⟩ := hw
        obtain ⟨s', ⟨hset, hp, ha⟩ | ⟨f, -, hp, -, -⟩⟩ := put_answers k r s
        · obtain ⟨x, hx, hv⟩ := hset.current
          have hle := h x hx
          intro y hy
          rw [Use.act, play_map, hp] at hy
          dsimp only at hy
          rw [ha.store, Scene.keeping_store, lookup_kept] at hy
          cases hy
          change v ≤ r.version + 1
          omega
        · rw [hp] at hok
          cases hok
  · intro x hx
    rw [lookup_of_not_writes hw] at hx
    exact h x hx

/-- Once a version is reached, records of lower versions are never set. -/
theorem Reached.le_version {v : Int} (h : Reached key v s) (hus : ∀ u ∈ us, u.IsOwn) {j : Nat}
    (hj : us[j]? = some (.set key r)) {e : Option Record} (he : (s.replies us)[j]? = some (.ok e)) :
    v ≤ r.version := by
  induction us generalizing s j with
  | nil => cases hj
  | cons u us ih =>
      cases j with
      | zero =>
          rw [List.getElem?_cons_zero] at hj
          rw [Scene.replies, List.getElem?_cons_zero] at he
          cases hj
          obtain ⟨s', ⟨hset, -, -⟩ | ⟨f, -, hp, -, -⟩⟩ := put_answers key r s
          · obtain ⟨x, hx, hv⟩ := hset.current
            exact hv ▸ h x hx
          · rw [Use.act, play_map, hp] at he
            cases he
      | succ j =>
          have hu := hus u List.mem_cons_self
          exact ih (h.act hu) (fun u hu => hus u (List.mem_cons_of_mem _ hu)) hj he

theorem version_lt_of_replies (hus : ∀ u ∈ us, u.IsOwn) {i j : Nat} (hij : i < j) {r' : Record}
    (hi : us[i]? = some (.set key r)) (hj : us[j]? = some (.set key r')) {e e' : Option Record}
    (he : (s.replies us)[i]? = some (.ok e)) (he' : (s.replies us)[j]? = some (.ok e')) :
    r.version < r'.version := by
  induction us generalizing s i j with
  | nil => cases hi
  | cons u us ih =>
      have hrest : ∀ u ∈ us, u.IsOwn := fun u hu => hus u (List.mem_cons_of_mem _ hu)
      cases i with
      | succ i =>
          cases j with
          | zero => cases hij
          | succ j => exact ih hrest (Nat.lt_of_succ_lt_succ hij) hi hj he he'
      | zero =>
          cases j with
          | zero => cases hij
          | succ j =>
              rw [List.getElem?_cons_zero] at hi
              rw [Scene.replies, List.getElem?_cons_zero] at he
              cases hi
              obtain ⟨s', ⟨-, hp, ha⟩ | ⟨f, -, hp, -, -⟩⟩ := put_answers key r s
              · have hreached : Reached key (r.version + 1) ((Use.set key r).act.play s).2 := by
                  intro x hx
                  rw [Use.act, play_map, hp] at hx
                  dsimp only at hx
                  rw [ha.store, Scene.keeping_store, lookup_kept] at hx
                  cases hx
                  exact Int.le_refl _
                have hle := hreached.le_version hrest hj he'
                omega
              · rw [Use.act, play_map, hp] at he
                cases he

/-- What a set of a record comes to. -/
structure Sets (key : String) (r : Record) (s : Scene) (out : Except Failure Record) (s' : Scene) :
    Prop where
  succeeds_iff : (∃ e, out = .ok e) ↔ Settable key r s
  returned : ∀ e, out = .ok e → e = { r with version := r.version + 1 }
  held : ∀ e, out = .ok e → s'.store.lookup key = .ok (some e)
  /-- Until the key is written again, every get that succeeds answers the record. -/
  got : ∀ e, out = .ok e → ∀ us, s'.Undisturbed key us →
    ∀ x, ((fetch key).play (s'.afterUses us)).1 = .ok x → x = some e
  others : ∀ name, name ≠ s.store.nameOf key → s'.store.entry? name = s.store.entry? name
  refused : ∀ f, out = .error f → s.Refuses key r f ∧ s'.store = s.store

theorem put_sets (key : String) (r : Record) (s : Scene) :
    ∃ out s', (put key r).play s = (out, s') ∧ Sets key r s out s' := by
  obtain ⟨s', ⟨hset, hp, ha⟩ | ⟨f, hnot, hp, href, ha⟩⟩ := put_answers key r s
  · have hheld : s'.store.lookup key = .ok (some r.next) := by
      rw [ha.store, Scene.keeping_store, lookup_kept]
    refine ⟨_, s', hp, ⟨fun _ => hset, fun _ => ⟨_, rfl⟩⟩, ?_, ?_, ?_, ?_, fun f hf => by cases hf⟩
    · intro e he
      cases he
      rfl
    · intro e he
      cases he
      exact hheld
    · intro e he us hus x hx
      cases he
      have hx := lookup_of_fetch hx
      rw [lookup_afterUses hus, hheld] at hx
      cases hx
      rfl
    · intro name hne
      rw [ha.store, Scene.keeping_store, entry?_kept_of_ne _ hne]
  · refine ⟨_, s', hp, ⟨?_, fun h => absurd h hnot⟩, ?_, ?_, ?_, fun _ _ => by rw [ha.store], ?_⟩
    · rintro ⟨e, he⟩
      cases he
    · intro e he
      cases he
    · intro e he
      cases he
    · intro e he
      cases he
    · intro g hg
      cases hg
      exact ⟨href, ha.store⟩

/-- A store of either kind, whatever was done to it before and whatever its client meets, is a register
with versions. A set succeeds just when the client can be reached, what it holds can be read, and the
record is of the version that is held; it then returns and holds the record under the next version, and
otherwise the store stays as it was. As long as nobody else writes to the client, of all who set records
of one version under a key one succeeds at most. -/
theorem versioned_register (key : String) :
    (∀ s r, ∃ out s', (put key r).play s = (out, s') ∧ Sets key r s out s') ∧
      ∀ (s : Scene) (us : List Use), (∀ u ∈ us, u.IsOwn) → ∀ (i j : Nat) (r r' : Record),
        us[i]? = some (.set key r) → us[j]? = some (.set key r') → r.version = r'.version →
        (∃ e, (s.replies us)[i]? = some (.ok e)) → (∃ e, (s.replies us)[j]? = some (.ok e)) →
        i = j := by
  refine ⟨fun s r => put_sets key r s, ?_⟩
  rintro s us hus i j r r' hi hj hv ⟨e, he⟩ ⟨e', he'⟩
  rcases Nat.lt_trichotomy i j with hij | hij | hij
  · have hlt := version_lt_of_replies hus hij hi hj he he'
    omega
  · exact hij
  · have hlt := version_lt_of_replies hus hij hj hi he' he
    omega

def rivals : List Use :=
  [.get "k", .set "k" { failureCount := 1 }, .set "j" {}, .get "k", .set "k" { failureCount := 2 }]

theorem clockRange_pos : 0 < Date.dayCount * (86400 * 10 ^ 6) := by decide

def emptyClient : Scene where
  now := ⟨0, none, clockRange_pos⟩
  store := .shared "p:" {}

theorem versioned_register_rivals :
    (∃ e, (emptyClient.replies rivals)[1]? = some (.ok e)) ∧
      ¬ ∃ e, (emptyClient.replies rivals)[4]? = some (.ok e) := by
  have hfirst : ∃ e, (emptyClient.replies rivals)[1]? = some (.ok e) :=
    ⟨some { failureCount := 1, version := 1 }, rfl⟩
  have hown : ∀ u ∈ rivals, u.IsOwn := by simp [rivals, Use.IsOwn]
  refine ⟨hfirst, fun hsecond => ?_⟩
  have heq := (versioned_register "k").2 emptyClient rivals hown 1 4 { failureCount := 1 }
    { failureCount := 2 } rfl rfl rfl hfirst hsecond
  cases heq

def interruptedClient : Scene :=
  { emptyClient with faults := fun a => if a = .clientRead then [.raise (.plain .abort none)] else [] }

/-- An interruption of the client is raised as it is, and not as a failure of the store. -/
theorem interruption_passed :
    ∃ f, ((put "k" {}).play interruptedClient).1 = .error f ∧ f.isA .store = false :=
  ⟨.plain .abort none, rfl, by decide⟩

end Act

end KeyedBreaker
