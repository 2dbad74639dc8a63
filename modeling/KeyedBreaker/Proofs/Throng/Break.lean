import KeyedBreaker.Proofs.Breaker.Shut
import KeyedBreaker.Proofs.Schedule.Run
import KeyedBreaker.Proofs.Throng.Exclusive

namespace KeyedBreaker

open Act Breaker

namespace Party

def awaitsStart (p : Party) : Bool :=
  match p.demand, p.standing with
  | .call .., .waiting _ => !p.worked
  | _, _ => false

/-- A party that needs nothing but that listeners come back. It leaves the store alone, and in the end
its result is such. -/
inductive PartsWith (answers : Except Failure Unit → Prop) (P : Except Failure Answer → Prop) :
    Party → Prop
  | over {p : Party} {result : Except Failure Answer} : p.standing = .over result → P result →
      PartsWith answers P p
  | waiting {p : Party} {next : Except Failure Unit → Act Upshot} : p.standing = .waiting next →
      (∀ r ts (s : Scene), answers r → s.Quiet → (next r).isForward ts s = true →
        ((next r).stretch ts s).2.store = s.store) →
      (∀ r ts (s : Scene), answers r → s.Quiet → (next r).isForward ts s = true →
        PartsWith answers P (p.stop ((next r).stretch ts s).1)) → PartsWith answers P p

variable {polite : Prop} {p : Party} {σ : Stance} {s : Scene}

theorem At.announcing_of_relies (h : p.At polite σ) (hσ : σ.Relies) : ∃ r, σ = .announcing r := by
  rcases h.cases with rfl | ⟨o, rfl⟩ | ht
  · exact hσ.elim
  · exact hσ.elim
  · cases σ with
    | announcing r => exact ⟨r, rfl⟩
    | owing | parting => exact hσ.elim
    | _ => exact ht.elim

theorem partsWith_of_ensures {b : Breaker} {key : String} {target? : Option Status}
    {a : Act Upshot} {given answer : Except Failure Answer} {s₀ : Scene} {ts : List Instant}
    (ha : a.Ensures (b.course key target? polite) (b.Arrives key target? polite Upshot.stance)
      (.parting given) s₀ s)
    (hy : Yielded polite given answer) (hts : a.isForward ts s = true) :
    (p.stop (a.stretch ts s).1).PartsWith (b.course key target? polite).answers
      (Yielded polite · answer) := by
  induction a generalizing p given s₀ s ts with
  | done result =>
      obtain ⟨σ', hl, rfl⟩ := ha
      obtain ⟨⟨given', hg, hy'⟩, -⟩ := Strides.of_parting hl.1
      rcases result with f | (o | - | a)
      · cases hg
        exact .over rfl (hy'.trans hy)
      · cases hg
      · cases hg
      · cases hg
        exact .over rfl (hy'.trans hy)
  | look next ih => exact ih s ha hy hts
  | change f next ih => exact ih ha hy (Bool.and_eq_true _ _ ▸ hts).2
  | say e next ih => exact ih ha hy hts
  | clock next ih =>
      rw [isForward, Bool.and_eq_true, Instant.isSince_iff] at hts
      exact ih _ (ha _ hts.1) hy hts.2
  | await next ih =>
      -- From where it parts no stride leads anywhere else, so it still waits there.
      obtain ⟨σ', -, hl, hnext⟩ := ha
      obtain ⟨⟨given', rfl, hy'⟩, -⟩ := Strides.of_parting hl.1
      refine .waiting rfl (fun r ts s' hr hq hts => ?_) fun r ts s' hr hq hts =>
        ih r (hnext r s' hr ⟨hq, trivial⟩) (hy'.trans hy) hts
      obtain ⟨σ', hl'⟩ := ((hnext r s' hr ⟨hq, trivial⟩).stretch hts).exists_leads
      exact (Strides.of_parting hl'.1).2.1

theorem partsWith_of_halt {b : Breaker} {key : String} {target? : Option Status}
    {halt : Halt Upshot} {s₀ : Scene}
    (h : halt.Ensures (b.course key target? polite) (b.Arrives key target? polite Upshot.stance)
      σ s₀ s) :
    ∃ σ', b.Strides key target? polite σ s₀ σ' s ∧
      (σ'.Tells ∨ (∃ o, σ' = .running o) ∨ σ' = .retrying) ∧
      ∀ given answer, σ' = .parting given → Yielded polite given answer →
        (p.stop halt).PartsWith (b.course key target? polite).answers (Yielded polite · answer) := by
  rcases halt with (f | (o | - | a)) | next
  · obtain ⟨σ', hl, rfl⟩ := h
    refine ⟨_, hl.1, .inl trivial, fun given answer hg hy => ?_⟩
    cases hg
    exact .over rfl hy
  · obtain ⟨σ', hl, rfl⟩ := h
    exact ⟨_, hl.1, .inr (.inl ⟨o, rfl⟩), fun given answer hg => nomatch hg⟩
  · obtain ⟨σ', hl, rfl⟩ := h
    exact ⟨_, hl.1, .inr (.inr rfl), fun given answer hg => nomatch hg⟩
  · obtain ⟨σ', hl, rfl⟩ := h
    refine ⟨_, hl.1, .inl trivial, fun given answer hg hy => ?_⟩
    cases hg
    exact .over rfl hy
  · obtain ⟨σ', htells, hl, hnext⟩ := h
    refine ⟨_, hl.1, .inl htells, fun given answer hg hy => ?_⟩
    subst hg
    refine .waiting rfl (fun r ts s' hr hq hts => ?_) fun r ts s' hr hq hts =>
      partsWith_of_ensures (hnext r s' hr ⟨hq, trivial⟩) hy hts
    obtain ⟨σ', hl'⟩ := ((hnext r s' hr ⟨hq, trivial⟩).stretch hts).exists_leads
    exact (Strides.of_parting hl'.1).2.1

end Party

namespace Throng

/-- On a run, this holds of every move when it is made. -/
def Along (P : Throng → Move → Prop) : Throng → List Move → Prop
  | _, [] => True
  | s, m :: ms => P s m ∧ (s.move m).Along P ms

/-- While a call waits for a listener before its function has been started, nothing happens but that
the listener comes back. -/
def IsPrompt (s : Throng) (m : Move) : Prop :=
  ∀ (j : Nat) (q : Party), s.parties[j]? = some q → q.awaitsStart = true →
    ∃ r ts, m = .go j (.answer r) ts

structure Informed (c : Config) (key : String) (p : Party) (σ : Stance) (s : Scene) : Prop where
  config : p.demand.breaker.config = c
  target : p.demand.target? ≠ some .halfOpen
  ofCall : σ.IsOfCall → p.demand.target? = none
  early : σ.IsEarly → p.worked = false
  knows : p.demand.key = key → σ.Knows c key s

structure Guarded (c : Config) (key : String) (s : Throng) : Prop where
  holds : s.Holds False (Informed c key)
  exclusive : s.scene.store.hasLocks = true → Exclusive key s.parties

variable {polite : Prop} {K : Party → Stance → Scene → Prop} {c : Config} {key : String}
  {s : Throng} {m : Move} {ms : List Move} {i : Nat} {p p' : Party} {σ σ' : Stance} {cue : Cue}
  {u : Instant} {P : Throng → Move → Prop}

/-- What is written when somebody goes on is not what others rely on. -/
theorem Goes.lookup_of_relies {s' : Throng} {ts : List Instant}
    (h : s.Goes polite i p σ cue p' σ' s')
    (hat : p.At polite σ) (hk : Informed c key p σ s.scene) (hi : s.parties[i]? = some p)
    (hex : s.scene.store.hasLocks = true → Exclusive key s.parties)
    (hprompt : s.scene.store.hasLocks = true ∨ s.IsPrompt (.go i cue ts)) {j : Nat} {q : Party}
    {τ : Stance} (hj : s.parties[j]? = some q) (hij : j ≠ i) (hτ : q.At polite τ)
    (hq : Informed c key q τ s.scene) (hkey : q.demand.key = key) (hrelies : τ.Relies) :
    s'.scene.store.lookup key = s.scene.store.lookup key := by
  obtain ⟨-, rs, hg⟩ := h.strides.grows
  by_cases hp : key = p.demand.key
  · obtain ⟨r, rfl⟩ := hτ.announcing_of_relies hrelies
    obtain ⟨next, hstanding⟩ := hτ.waiting_of_tells trivial fun _ h => nomatch h
    have hcall := hq.ofCall trivial
    rcases hprompt with hlocks | hprompt
    · have hholds : q.holds p.demand.key = true :=
        Party.holds_eq_true_iff.2 ⟨hcall, hkey.trans hp, .inl ⟨next, hstanding⟩⟩
      obtain ⟨hsame, answer, rfl⟩ := h.parting_of_held hat hk.ofCall hi hlocks (hp ▸ hex hlocks) hj
        hholds hij
      have hstrides := h.strides
      rw [hsame] at hstrides
      exact congrArg (fun st => st.lookup key) (Strides.of_parting hstrides).2.1
    · have hawaits : q.awaitsStart = true := by
        have hearly := hq.early trivial
        obtain ⟨d, standing, worked⟩ := q
        cases d with
        | force => cases hcall
        | call b k =>
            subst hstanding hearly
            rfl
      obtain ⟨r', ts', hm⟩ := hprompt j q hj hawaits
      cases hm
      exact absurd rfl hij
  · exact hg.lookup_of_ne hp

theorem Informed.resumed (h : Informed c key p σ s.scene) (cue : Cue) :
    Informed c key p (σ.resumed c cue) s.scene := by
  unfold Stance.resumed
  split
  · refine ⟨h.config, h.target, fun _ => h.ofCall trivial, False.elim, fun hkey => ?_⟩
    obtain rfl := h.config
    exact (h.knows hkey).settle
  · exact h

theorem Informed.of_goes {s' : Throng} (hk : Informed c key p σ s.scene)
    (h : s.Goes polite i p σ cue p' σ' s') : Informed c key p' σ' s'.scene := by
  have hres := hk.resumed cue
  obtain rfl := hk.config
  refine ⟨by rw [h.demand], by rw [h.demand]; exact hk.target, fun hσ' => ?_, fun hσ' => ?_,
    fun hkey => ?_⟩
  · rw [h.demand]
    exact Strides.isOfCall h.strides hres.ofCall hσ'
  · have hp := hres.early (Strides.isEarly h.strides hσ')
    refine Bool.eq_false_iff.2 fun hworked => ?_
    rcases h.worked hworked with hw | ⟨o, rfl⟩
    · rw [hp] at hw
      cases hw
    · exact hσ'
  · rw [h.demand] at hkey
    subst hkey
    exact Strides.knows h.strides (hres.knows rfl)

theorem Guarded.move (h : s.Guarded c key) (hforward : s.isForward m = true)
    (hprompt : s.scene.store.hasLocks = true ∨ s.IsPrompt m)
    (hjoin : ∀ d, m = .join d → d.breaker.config = c ∧ d.target? ≠ some .halfOpen) :
    (s.move m).Guarded c key := by
  refine ⟨h.holds.move hforward (fun _ _ _ _ hp => hp.elim) (fun _ _ hp => hp.elim)
    (fun d hd => ?_) (fun p _ hk => ?_) (fun p σ t x ht hk => ?_)
    fun i p σ cue ts p' σ' hm hi hat hk hg => ⟨?_, fun j q τ hij hj hτ hq => ?_⟩,
    fun hlocks => ?_⟩
  · obtain ⟨hc, htarget⟩ := hjoin d hd
    exact ⟨hc, htarget, False.elim, fun _ => rfl, fun _ => trivial⟩
  · exact ⟨hk.config, hk.target, False.elim, False.elim, fun _ => trivial⟩
  · exact ⟨hk.config, hk.target, hk.ofCall, hk.early, fun hkey =>
      (hk.knows hkey).of_grows (k := key) .refl ht fun _ => rfl⟩
  · exact hk.of_goes hg
  · obtain ⟨hnow, rs, hgrows⟩ := hg.strides.grows
    -- a lock keeps others away from the record that a call has written, or else promptness does
    exact ⟨hq.config, hq.target, hq.ofCall, hq.early, fun hkey =>
      (hq.knows hkey).of_grows hgrows hnow fun hrelies =>
        hg.lookup_of_relies hat hk hi h.exclusive (hm ▸ hprompt) hj hij hτ hq hkey hrelies⟩
  · rcases s.move_cases m with ⟨d, rfl⟩ | ⟨t, x, rfl⟩ | he | ⟨i, p, hi, hp, he⟩ |
      ⟨i, p, cue, ts, a, rfl, hi, ha, he⟩
    · exact exclusive_append (h.exclusive hlocks)
    · exact h.exclusive hlocks
    · rw [he] at hlocks ⊢
      exact h.exclusive hlocks
    · rw [he] at hlocks ⊢
      refine (h.exclusive hlocks).set hi fun hover => ?_
      obtain ⟨-, -, ⟨next, hs⟩ | ⟨o, hs⟩⟩ := Party.holds_eq_true_iff.1 hover <;> cases hs
    · obtain ⟨σ, p', σ', hat, -, hk, hg⟩ :=
        h.holds.exists_goes hi ha False.elim (fun _ _ _ _ hp => hp.elim) hforward
      rw [he] at hlocks ⊢
      rw [hg.hasLocks] at hlocks
      exact hg.exclusive hat hk.ofCall hi hlocks (h.exclusive hlocks)

theorem Guarded.move_cases (h : s.Guarded c key) (hforward : s.isForward m = true) :
    (s.move m).scene.store = s.scene.store ∧ (s.move m).scene.events = s.scene.events ∧
        (s.move m).scene.now.reaches s.scene.now = .ok true ∨
      ∃ i p cue ts σ p' σ', m = .go i cue ts ∧ s.parties[i]? = some p ∧ p.At False σ ∧
        Informed c key p σ s.scene ∧ s.Goes False i p σ cue p' σ' (s.move m) :=
  h.holds.move_cases hforward (fun _ _ _ _ hp => hp.elim) fun _ _ hp => hp.elim

theorem Guarded.hasLocks (h : s.Guarded c key) (hforward : s.isForward m = true) :
    (s.move m).scene.store.hasLocks = s.scene.store.hasLocks := by
  rcases h.move_cases hforward with ⟨hstore, -⟩ | ⟨i, p, cue, ts, σ, p', σ', -, -, -, -, hg⟩
  · rw [hstore]
  · exact hg.hasLocks

/-- A run that goes as it should: the clock does not go back, breakers have this configuration, keys are
forced to be anything but half-open, and listeners come back at once where somebody else could get
ahead of a function. -/
structure Proper (c : Config) (s : Throng) (ms : List Move) : Prop where
  forward : s.Along (fun t m => t.isForward m = true) ms
  joins : ∀ d, .join d ∈ ms → d.breaker.config = c ∧ d.target? ≠ some .halfOpen
  prompt : s.scene.store.hasLocks = true ∨ s.Along IsPrompt ms

theorem Guarded.step (h : s.Guarded c key) (hms : s.Proper c (m :: ms)) :
    (s.move m).Guarded c key ∧ (s.move m).Proper c ms := by
  refine ⟨h.move hms.forward.1 (hms.prompt.imp id And.left)
    fun d hd => hms.joins d (hd ▸ List.mem_cons_self), hms.forward.2,
    fun d hd => hms.joins d (List.mem_cons_of_mem _ hd), ?_⟩
  rcases hms.prompt with hlocks | hprompt
  · exact .inl ((h.hasLocks hms.forward.1).trans hlocks)
  · exact .inr hprompt.2

theorem Guarded.after (h : s.Guarded c key) {ms' : List Move} (hms : s.Proper c (ms ++ ms')) :
    (s.after ms).Guarded c key ∧ (s.after ms).Proper c ms' := by
  induction ms generalizing s with
  | nil => exact ⟨h, hms⟩
  | cons m ms ih =>
      obtain ⟨h', hms'⟩ := h.step hms
      exact ih h' hms'

theorem Guarded.turnedAway (h : s.Guarded c key) {b : Breaker} {ts : List Instant} {r : Record}
    (hb : polite → b.Polite) (hts : (Demand.call b key).begin.isForward ts s.scene = true)
    (hr : s.scene.store.lookup key = .ok (some r)) (hs : r.status = .open)
    (hclose : r.closeAt = some u)
    (hbefore : (s.goOn i p (Demand.call b key).begin ts).scene.now.reaches u = .ok false) :
    (s.goOn i p (Demand.call b key).begin ts).scene.starts = s.scene.starts ∧
      (s.goOn i p (Demand.call b key).begin ts).scene.store.lookup key = .ok (some r.next) ∧
      ∃ d, u.Remains s.scene.now (s.goOn i p (Demand.call b key).begin ts).scene.now d ∧
        (p.stop ((Demand.call b key).begin.stretch ts s.scene).1).PartsWith
          (b.course key none polite).answers
          (Yielded polite · (.error (.circuitOpen key d.seconds))) := by
  obtain ⟨σ', hstrides, hstops, hparts⟩ := Party.partsWith_of_halt (p := p)
    ((Demand.brings_begin (d := .call b key) hb .fresh s.scene s.scene
      (leads_of_resumes ⟨h.holds.quiet, trivial⟩)).stretch hts)
  obtain ⟨hstarts, haway⟩ := Strides.turnedAway hstrides hr hs hclose hbefore
  -- with the circuit open all along the call is through with the store where it first stops
  cases σ' with
  | parting given =>
      obtain ⟨hstored, d, hd, hy⟩ := haway
      exact ⟨hstarts, hstored, d, hd, hparts given _ rfl hy⟩
  | announcing | running | owing | retrying => exact haway.elim
  | _ => rcases hstops with ht | ⟨o, ho⟩ | ho <;> first | exact ht.elim | cases ho

def atRest (store : Store) : Throng := { scene := { now := Schedule.beginning, store } }

def beforeBreakEnd : Instant := ⟨4999999, none, by decide⟩

/-- A microsecond later. -/
def breakEnd : Instant := ⟨beforeBreakEnd.wall + 1, none, by decide⟩

def result? (s : Throng) (i : Nat) : Option (Except Failure Answer) :=
  s.parties[i]?.bind fun p =>
    match p.standing with
    | .over result => some result
    | _ => none

def failureClass? (s : Throng) (i : Nat) : Option FailureClass :=
  match s.result? i with
  | some (.error f) => some f.cls
  | _ => none

def tripped : Throng := (atRest (.memory [])).after [.join (.force {} "k" .open 1), .go 0 .enter []]

def aborted : Throng :=
  tripped.after [.join (.call
    { listeners := [.recording (some (.plain .abort none)) [.rejected]] } "k"), .go 1 .enter [],
    .go 1 (.answer (.ok ())) []]

/-- A call finds that the break is over, and while it waits for its listener to be told so, somebody
trips the circuit again. -/
def overtaken : Throng :=
  (atRest (.shared "" { writes := [("k", some (.text "\x7b\"status\":\"open\"\x7d"))] })).after
    [.join (.call { listeners := [.recording none []] } "k"), .go 0 .enter [],
      .join (.force {} "k" .open 1), .go 1 .enter []]

end Throng

end KeyedBreaker
