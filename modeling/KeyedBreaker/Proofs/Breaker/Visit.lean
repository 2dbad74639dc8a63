import KeyedBreaker.Proofs.Breaker.News
import KeyedBreaker.Proofs.Breaker.Break
import KeyedBreaker.Proofs.Schedule.Run

namespace KeyedBreaker

def Config.Total (c : Config) : Prop :=
  ∀ f : Failure, f.isOrdinary = true → ∃ counted, c.counts f = .ok counted

theorem Config.Total.judges {α : Type} {c : Config} (h : c.Total) (result : Except Failure α) :
    c.Judges result := fun f _ => h f

theorem Config.total_of_no_classifier {c : Config} (h : c.classifier = none) :
    c.Total := by
  intro f _
  rw [Config.counts, h]
  exact ⟨_, rfl⟩

namespace Scene

/-- What happens to a scene while the key is left alone and the clock does not go backwards. -/
structure LetsAlone (key : String) (s s' : Scene) : Prop where
  quiet : s.Quiet → s'.Quiet
  lookup : s'.store.lookup key = s.store.lookup key
  forward : s'.now.reaches s.now = .ok true
  starts : s'.starts.count key = s.starts.count key
  news : s'.newsOf key = s.newsOf key

theorem LetsAlone.refl (key : String) (s : Scene) : s.LetsAlone key s :=
  ⟨id, rfl, Instant.reaches_self _, rfl, rfl⟩

end Scene

open Act Breaker

/-- A call that no other one on its key overlaps. -/
structure Visit where
  breaker : Breaker
  /-- What happens before the call. -/
  before : Scene → Scene := id
  /-- What happens while its function runs. -/
  during : Scene → Scene := id
  /-- How its function ends. -/
  result : Except Failure Json

/-- A call that was made: when it started, when its function ended, and how. -/
structure Past where
  start : Instant
  finish : Instant
  result : Except Failure Json

/-- How a call counts. -/
inductive Verdict where
  | good
  | bad
  /-- Its function was cancelled or aborted. -/
  | void
  deriving DecidableEq

def Past.verdict (c : Config) (p : Past) : Verdict :=
  match p.result with
  | .ok _ => .good
  | .error f =>
    if f.isOrdinary then
      match c.counts f with
      | .ok true => .bad
      | _ => .good
    else .void

theorem Past.verdict_of_ok {c : Config} {p : Past} {v : Json} (h : p.result = .ok v) :
    p.verdict c = .good := by
  rw [verdict, h]

theorem Past.verdict_of_counts {c : Config} {p : Past} {f : Failure} {counted : Bool}
    (h : p.result = .error f) (ho : f.isOrdinary = true) (hc : c.counts f = .ok counted) :
    p.verdict c = if counted then .bad else .good := by
  rw [verdict, h]
  dsimp only
  rw [if_pos ho, hc]
  cases counted <;> rfl

theorem Past.verdict_eq_void_iff {c : Config} {p : Past} :
    p.verdict c = .void ↔ ∃ f, p.result = .error f ∧ f.isOrdinary = false := by
  rw [verdict]
  cases p.result with
  | ok v => simp
  | error f =>
      cases ho : f.isOrdinary with
      | false => simp [ho]
      | true =>
          dsimp only
          rw [if_pos ho]
          split <;> simp [ho]

theorem Past.isOrdinary_of_verdict {c : Config} {p : Past} (h : p.verdict c ≠ .void) {f : Failure}
    (hr : p.result = .error f) : f.isOrdinary = true :=
  Bool.of_not_eq_false fun ho => h (verdict_eq_void_iff.2 ⟨f, hr, ho⟩)

namespace Visit

variable (key : String) (v : Visit) (s : Scene)

/-- The call as far as its function starts, if it does. -/
def entry : Except Failure Stage × Scene := (v.breaker.enterCall key {}).play (v.before s)

def ending : Scene := v.during (v.entry key s).2

def run : Except Failure Json × Scene :=
  match v.entry key s with
  | (.error f, s') => (.error f, s')
  | (.ok (.ended x), s') => (.ok x, s')
  | (.ok (.running o), _) => (v.breaker.conclude key o v.result).play (v.ending key s)

def past : Past := ⟨(v.before s).now, (v.ending key s).now, v.result⟩

def after (vs : List Visit) : Scene := vs.foldl (fun s v => (v.run key s).2) s

/-- The calls that were made one after another. -/
def history : Scene → List Visit → List Past
  | _, [] => []
  | s, v :: vs => v.past key s :: history (v.run key s).2 vs

/-- A call by a breaker with this configuration and polite listeners, in a surrounding that leaves the
key alone. The dates that it may have to compute are in range. -/
structure Fair (c : Config) : Prop where
  config : v.breaker.config = c
  polite : v.breaker.Polite
  before : s.LetsAlone key (v.before s)
  during : (v.entry key s).2.LetsAlone key (v.ending key s)
  windowEnd : ∃ u, (v.before s).now.addSeconds c.samplingDuration = .ok u
  nextWindowEnd : ∃ u, (v.ending key s).now.addSeconds c.samplingDuration = .ok u
  breakEnd : ∃ u, (v.ending key s).now.addSeconds c.breakDuration = .ok u

def AllFair (c : Config) (key : String) : Scene → List Visit → Prop
  | _, [] => True
  | s, v :: vs => v.Fair key s c ∧ AllFair c key (v.run key s).2 vs

variable {key s} {v} {c : Config} {us vs : List Visit}

theorem after_append : after key s (us ++ vs) = after key (after key s us) vs := List.foldl_append

theorem after_concat : after key s (vs ++ [v]) = (v.run key (after key s vs)).2 := after_append

theorem history_append :
    history key s (us ++ vs) = history key s us ++ history key (after key s us) vs := by
  induction us generalizing s with
  | nil => rfl
  | cons u us ih => exact congrArg (u.past key s :: ·) ih

theorem history_concat :
    history key s (vs ++ [v]) = history key s vs ++ [v.past key (after key s vs)] := history_append

theorem exists_of_mem_history {p : Past} (h : p ∈ history key s vs) :
    ∃ v ∈ vs, p.result = v.result := by
  induction vs generalizing s with
  | nil => exact absurd h List.not_mem_nil
  | cons u us ih =>
      rcases List.mem_cons.1 h with rfl | h
      · exact ⟨u, List.mem_cons_self, rfl⟩
      · obtain ⟨v, hv, hp⟩ := ih h
        exact ⟨v, List.mem_cons_of_mem _ hv, hp⟩

theorem allFair_append :
    AllFair c key s (us ++ vs) ↔ AllFair c key s us ∧ AllFair c key (after key s us) vs := by
  induction us generalizing s with
  | nil => exact (iff_of_eq (true_and _)).symm
  | cons u us ih =>
      rw [List.cons_append, AllFair, AllFair, ih, and_assoc]
      rfl

theorem allFair_concat :
    AllFair c key s (vs ++ [v]) ↔ AllFair c key s vs ∧ v.Fair key (after key s vs) c := by
  rw [allFair_append, AllFair, AllFair, and_true]

theorem fair_of_still (hbefore : v.before = id) (hduring : v.during = id)
    (hc : v.breaker.config = c) (hb : v.breaker.Polite)
    (hstart : ∃ u, (v.before s).now.addSeconds c.samplingDuration = .ok u)
    (hend : ∃ u, (v.ending key s).now.addSeconds c.samplingDuration = .ok u)
    (hbreak : ∃ u, (v.ending key s).now.addSeconds c.breakDuration = .ok u) : v.Fair key s c where
  config := hc
  polite := hb
  before := by
    rw [hbefore]
    exact .refl key s
  during := by
    rw [ending, hduring]
    exact .refl key _
  windowEnd := hstart
  nextWindowEnd := hend
  breakEnd := hbreak

def emptyScene : Scene := (Schedule.atRest Schedule.beginning (.memory [])).scene

end Visit

namespace Breaker

variable {b : Breaker} {key : String} {s : Scene} {x : Option Record} {r r' : Record}
  {rs rs' : List Record} {t : Instant}

theorem Admitted.unique (h : b.Admitted t x r rs) (h' : b.Admitted t x r' rs') :
    r = r' ∧ rs = rs' := by
  cases h with
  | loaded hl hc =>
      cases h' with
      | loaded hl' hc' =>
          rw [hl] at hl'
          cases hl'
          exact ⟨rfl, rfl⟩
      | changed hl' hc' =>
          rw [hl] at hl'
          cases hl'
          rw [hc] at hc'
          cases hc'
  | changed hl hc =>
      cases h' with
      | loaded hl' hc' =>
          rw [hl] at hl'
          cases hl'
          rw [hc] at hc'
          cases hc'
      | changed hl' hc' =>
          rw [hl] at hl'
          cases hl'
          rw [hc] at hc'
          cases hc'
          exact ⟨rfl, rfl⟩

def precedes (b : Breaker) (t : Instant) (x : Option Record) : Option (Status × Status) :=
  match b.loaded t (.ok x) with
  | .ok r => b.owed t r
  | .error _ => none

theorem begin_of_admitted (hb : b.Polite) (hq : s.Quiet) (hx : s.store.lookup key = .ok x)
    (ha : b.Admitted s.now x r rs) :
    ∃ s', (b.begin key).play s = (.ok (b.opening key s.now s.monotonic r,
        (Record.permit b.config r.status key s.now r).2), s') ∧ s.Leads key rs (tried key rs) s' ∧
      s'.news = b.report key (b.precedes s.now x) ++ s.news := by
  obtain ⟨out, s', hp, hbegun⟩ := b.begin_begun hq hx
  have hunique : ∀ {r₁ rs₁}, b.Admitted s.now x r₁ rs₁ → r = r₁ ∧ rs = rs₁ := ha.unique
  obtain ⟨r₀, hr₀⟩ := ha.loads
  have hnews : s'.news = b.report key (b.precedes s.now x) ++ s.news := by
    rw [precedes, hr₀, ← news_begin hb hq hx hr₀, hp]
  cases hbegun with
  | unloaded hl _ => rw [hr₀] at hl; cases hl
  | unchanged hl hc _ =>
      cases ha with
      | loaded hl' hc' =>
          rw [hl] at hl'
          cases hl'
          rw [hc] at hc'
          cases hc'
      | changed hl' hc' =>
          rw [hl] at hl'
          cases hl'
          rw [hc] at hc'
          cases hc'
  | unannounced _ _ _ hn _ => exact absurd hb hn
  | begun ha' hl =>
      obtain ⟨rfl, rfl⟩ := hunique ha'
      exact ⟨s', hp, hl, hnews⟩

end Breaker

namespace Visit

variable {v : Visit} {key : String} {s : Scene} {c : Config} {x : Option Record} {r e : Record}
  {rs : List Record}

structure Leaves (v : Visit) (key : String) (s : Scene) (x : Option Record) (news : List Event) :
    Prop where
  result : (v.run key s).1 = v.result
  now : (v.run key s).2.now = (v.ending key s).now
  quiet : (v.run key s).2.Quiet
  lookup : (v.run key s).2.store.lookup key = .ok x
  starts : (v.run key s).2.starts.count key = s.starts.count key + 1
  news : (v.run key s).2.newsOf key = news ++ s.newsOf key

structure Runs (v : Visit) (key : String) (s : Scene) (x : Option Record) (r : Record)
    (rs : List Record) : Prop where
  quiet : s.Quiet
  lookup : s.store.lookup key = .ok x
  admitted : v.breaker.Admitted (v.before s).now x r rs
  permitted : (Record.permit v.breaker.config r.status key (v.before s).now r).2 = .ok ()

structure Underway (v : Visit) (key : String) (s : Scene) (x : Option Record) (r : Record)
    (rs : List Record) : Prop where
  entry : (v.entry key s).1 = .ok (.running
    (v.breaker.opening key (v.before s).now (v.before s).monotonic r))
  quiet : (v.ending key s).Quiet
  lookup : (v.ending key s).store.lookup key = .ok (rs.head?.or x)
  forward : (v.ending key s).now.reaches (v.before s).now = .ok true
  starts : (v.ending key s).starts.count key = s.starts.count key + 1
  news : (v.ending key s).newsOf key =
    v.breaker.report key (v.breaker.precedes (v.before s).now x) ++ s.newsOf key

theorem newsKey?_of_mem_report {b : Breaker} {change : Option (Status × Status)} {e : Event}
    (h : e ∈ b.report key change) : e.newsKey? = some key := by
  cases change with
  | none => exact absurd h List.not_mem_nil
  | some d => exact newsKey?_of_mem_tidings h

theorem Runs.underway (h : v.Runs key s x r rs) (hf : v.Fair key s c) :
    v.Underway key s x r rs := by
  have hq := hf.before.quiet h.quiet
  have hx : (v.before s).store.lookup key = .ok x := hf.before.lookup.trans h.lookup
  obtain ⟨s₁, hbegin, hl, hnews⟩ := begin_of_admitted hf.polite hq hx h.admitted
  rw [h.permitted] at hbegin
  let started := s₁.seeing [.started key]
  have hentry : v.entry key s = (.ok (.running
      (v.breaker.opening key (v.before s).now (v.before s).monotonic r)), started) :=
    play_enterCall {} hbegin
  have hd : started.LetsAlone key (v.ending key s) := by
    have := hf.during
    rwa [hentry] at this
  have hstarted : started.news = s₁.news := rfl
  have hseen : started.starts = key :: s₁.starts := rfl
  refine ⟨congrArg Prod.fst hentry, hd.quiet (hl.quiet hq), hd.lookup.trans (hl.store.lookup hx), ?_,
    ?_, ?_⟩
  · rw [← hl.now]
    exact hd.forward
  · rw [hd.starts, hseen, hl.starts, List.count_cons_self, hf.before.starts]
  · rw [hd.news, ← hf.before.news]
    exact Scene.newsOf_of_news (fun e he => newsKey?_of_mem_report he) (hstarted.trans hnews)

theorem run_of_underway (h : v.Underway key s x r rs) :
    v.run key s = (v.breaker.conclude key
      (v.breaker.opening key (v.before s).now (v.before s).monotonic r) v.result).play
        (v.ending key s) := by
  have he := h.entry
  rw [run]
  rcases hentry : v.entry key s with ⟨out, s'⟩
  rw [hentry] at he
  cases he
  rfl

def counted (v : Visit) (key : String) (s : Scene) (r : Record) : Record :=
  (Record.settle v.breaker.config r.status
    (Record.permit v.breaker.config r.status key (v.before s).now r).1 v.result).1

/-- A function that is cancelled or aborts leaves behind what was there while it ran. -/
theorem Runs.leaves_void (h : v.Runs key s x r rs) (hf : v.Fair key s c) {f : Failure}
    (hr : v.result = .error f) (ho : f.isOrdinary = false) :
    v.Leaves key s (rs.head?.or x)
      (v.breaker.report key (v.breaker.precedes (v.before s).now x)) := by
  have hu := h.underway hf
  have hrun : v.run key s = (.error f, v.ending key s) := by
    rw [run_of_underway hu, hr, conclude_eq]
    simp only [Record.settle, ho]
    exact finish_of_not_ordinary _ key _ ho _
  refine ⟨?_, ?_, ?_, ?_, ?_, ?_⟩ <;> rw [hrun]
  · exact hr.symm
  · exact hu.quiet
  · exact hu.lookup
  · exact hu.starts
  · exact hu.news

/-- Any other function has its result counted: the record is renewed and stored. -/
theorem Runs.leaves_counted (h : v.Runs key s x r rs) (hf : v.Fair key s c) (hj : c.Judges v.result)
    (hr : ∀ f, v.result = .error f → f.isOrdinary = true)
    (he : v.breaker.renewed (v.ending key s).now (v.counted key s r) = .ok e) :
    v.Leaves key s (some e.next)
      (v.breaker.report key (v.breaker.owed (v.ending key s).now (v.counted key s r)) ++
        v.breaker.report key (v.breaker.precedes (v.before s).now x)) := by
  have hu := h.underway hf
  have hrun := run_of_underway hu
  let o := v.breaker.opening key (v.before s).now (v.before s).monotonic r
  have hresult : (Record.settle v.breaker.config o.status o.record v.result).2 = v.result :=
    Record.settle_result (hf.config.symm ▸ hj)
  have hcurrent : o.Current (rs.head?.or x) := h.admitted.current h.permitted
  have hnews := news_conclude hf.polite key o v.result (by rw [hresult]; exact hr) (v.ending key s)
  have hplay : (v.breaker.conclude key o v.result).play (v.ending key s) = v.run key s := hrun.symm
  rcases hout : v.run key s with ⟨out, s'⟩
  rw [hout] at hplay
  rw [hplay] at hnews
  have hcounted : (Record.settle v.breaker.config o.status o.record v.result).1 =
      v.counted key s r := rfl
  cases concluded_of_play hu.quiet hu.lookup hplay with
  | uncounted hs ho =>
      rw [hresult] at hs
      rw [hr _ hs] at ho
      cases ho
  | counted hfin =>
      rw [hresult, hcounted] at hfin
      cases hfin with
      | unrenewed hren _ =>
          rw [he] at hren
          cases hren
      | unannounced _ _ hn _ => exact absurd hf.polite hn
      | persisted hren hp hy =>
          rw [he] at hren
          cases hren
          have hv := (version_renewed he).trans ((Record.version_settle _).trans hcurrent.version)
          have hl := hp.current hv
          refine ⟨?_, ?_, ?_, ?_, ?_, ?_⟩ <;> rw [hout]
          · exact hy.of_polite hf.polite
          · exact hl.now
          · exact hl.quiet hu.quiet
          · exact hl.store.lookup_cons
          · rw [hl.starts, hu.starts]
          · rw [List.append_assoc, ← hu.news]
            exact Scene.newsOf_of_news (fun e he => newsKey?_of_mem_report he) hnews

end Visit

end KeyedBreaker
