import KeyedBreaker.Proofs.Breaker.Attempt
import KeyedBreaker.Proofs.Schedule.Rest

namespace KeyedBreaker

open Act Breaker

def Scene.newly {α : Type} (f : Scene → List α) (s s' : Scene) : List α :=
  (f s').take ((f s').length - (f s).length)

theorem Scene.newly_eq {α : Type} {f : Scene → List α} {s s' : Scene} {l : List α}
    (h : f s' = l ++ f s) : newly f s s' = l := by
  rw [newly, h, List.length_append, Nat.add_sub_cancel, List.take_left]

/-- What happens while a task goes on: a move, or whatever others do to the scene between two moves, as in
a pause. -/
inductive Incident where
  | move (m : Move)
  | change (σ : Scene)

namespace Schedule

def meet (s : Schedule) : Incident → Schedule
  | .move m => s.move m
  | .change σ => { s with scene := σ }

def amid (s : Schedule) (es : List Incident) : Schedule := es.foldl meet s

theorem amid_concat (s : Schedule) (es : List Incident) (e : Incident) :
    s.amid (es ++ [e]) = (s.amid es).meet e := by
  rw [amid, List.foldl_append]
  rfl

section Turns

variable {α : Type} (i : Nat) (f : Schedule → List α)

def ofTurn (s : Schedule) : Incident → List α
  | .move .turn => if s.ready.head? = some i then f s else []
  | _ => []

def ofTurns : Schedule → List Incident → List α
  | _, [] => []
  | s, e :: es => ofTurns (s.meet e) es ++ ofTurn i f s e

theorem ofTurns_concat (s : Schedule) (es : List Incident) (e : Incident) :
    ofTurns i f s (es ++ [e]) = ofTurn i f (s.amid es) e ++ ofTurns i f s es := by
  induction es generalizing s with
  | nil => exact (List.append_nil _).symm
  | cons e' es ih =>
      rw [List.cons_append, ofTurns, ih, ofTurns, List.append_assoc]
      rfl

end Turns

def attempting (i : Nat) (s : Schedule) : List Attempt :=
  match s.stands[i]? with
  | some ⟨.acting (.force b key target _), _⟩ => [b.attempt key target s.scene]
  | _ => []

def attempts (i : Nat) (s : Schedule) (es : List Incident) : List Attempt :=
  ofTurns i (attempting i) s es

def turnsOf (i : Nat) (s : Schedule) (es : List Incident) : Nat := (ofTurns i (fun _ => [()]) s es).length

/-- What is seen in the turns of a task in a run, latest first. -/
def seenOf {α : Type} (f : Scene → List α) (i : Nat) (s : Schedule) (es : List Incident) : List α :=
  ofTurns i (fun s => Scene.newly f s.scene s.tick.scene) s es

end Schedule

def Place.IsBefore (op : Operation) (p : Place) : Prop :=
  (∃ step, p = .starting step ∧ step.operation? = some op) ∨
    p = .requesting op ∨ p = .queued op ∨ p = .acting op

theorem Place.IsBefore.three_le_weight {op : Operation} {p : Place} (h : p.IsBefore op) :
    3 ≤ p.weight := by
  have hop := op.three_le_weight
  obtain ⟨step, rfl, -⟩ | rfl | rfl | rfl := h
  · exact step.three_le_weight
  · exact Nat.le_add_right_of_le hop
  · exact Nat.le_add_right_of_le hop
  · exact hop

/-- What a turn of a task comes to that is at its attempt of this number to force a status: it goes on
waiting, or it is cancelled meanwhile, or the attempt is made. -/
inductive Trial (b : Breaker) (key : String) (target : Status) (n : Nat) (fs : List Frame) (σ : Scene)
    (p : Place) (σ' : Scene) (st' : Stand) : Prop
  | waits {q : Place} : p ≠ .acting (.force b key target n) → σ' = σ → st' = ⟨q, fs⟩ →
      q.IsBefore (.force b key target n) → Trial b key target n fs σ p σ' st'
  | cancelled : p ≠ .acting (.force b key target n) → σ' = σ →
      st' = ⟨.returning (.error .cancellation), fs⟩ → Trial b key target n fs σ p σ' st'
  | stores {previous : Status} {e : Record} {σ₁ : Scene} : p = .acting (.force b key target n) →
      (b.overwriteOnce key target).play σ = (.ok (previous, e), σ₁) →
      σ' = ((b.confirm key target previous).play σ₁).2 →
      st' = ⟨.returning (((b.confirm key target previous).play σ₁).1.map fun _ => .record (some e)), fs⟩ →
      Trial b key target n fs σ p σ' st'
  | conflicts {f : Failure} {σ₁ : Scene} : p = .acting (.force b key target n) →
      (b.overwriteOnce key target).play σ = (.error f, σ₁) → f.isA .stale = true →
      n < b.policy.attempts → σ' = ((b.backOff key target n).play σ₁).2 →
      st' = ⟨.requesting (.force b key target (n + 1)), fs⟩ → Trial b key target n fs σ p σ' st'
  | fails {f : Failure} {σ₁ : Scene} : p = .acting (.force b key target n) →
      (b.overwriteOnce key target).play σ = (.error f, σ₁) →
      (f.isA .stale = true → b.policy.attempts ≤ n) → σ' = σ₁ →
      st' = ⟨.returning (.error f), fs⟩ → Trial b key target n fs σ p σ' st'

theorem Turn.trial {b : Breaker} {key : String} {target : Status} {n : Nat} {fs : List Frame}
    {σ σ' : Scene} {p : Place} {st' : Stand} (h : Turn σ ⟨p, fs⟩ σ' st')
    (hp : p.IsBefore (.force b key target n)) : Trial b key target n fs σ p σ' st' := by
  obtain ⟨step, rfl, hop⟩ | rfl | rfl | rfl := hp
  · cases h with
    | asks ho =>
        cases hop.symm.trans ho
        exact .waits (by simp) rfl rfl (.inr (.inl rfl))
    | plays ha =>
        cases step with
        | call | force => cases ha
        | _ => cases hop
    | signals hc =>
        obtain rfl := hc (by rw [hop]; rfl)
        exact .cancelled (by simp) rfl rfl
    | concludes hends => obtain ⟨h, -⟩ | ⟨⟨gate, h⟩, -⟩ := hends <;> cases h
  · cases h with
    | waits => exact .waits (by simp) rfl rfl (.inr (.inr (.inl rfl)))
    | enters => exact .waits (by simp) rfl rfl (.inr (.inr (.inr rfl)))
    | concludes hends => obtain ⟨h, -⟩ | ⟨⟨gate, h⟩, -⟩ := hends <;> cases h
  · cases h with
    | wakes => exact .waits (by simp) rfl rfl (.inr (.inr (.inr rfl)))
    | leaves => exact .cancelled (by simp) rfl rfl
    | concludes hends => obtain ⟨h, -⟩ | ⟨⟨gate, h⟩, -⟩ := hends <;> cases h
  · cases h with
    | forces hp => exact .stores rfl hp rfl rfl
    | retries hp hf hn => exact .conflicts rfl hp hf hn rfl rfl
    | fails hp hn => exact .fails rfl hp hn rfl rfl
    | concludes hends => obtain ⟨h, -⟩ | ⟨⟨gate, h⟩, -⟩ := hends <;> cases h

namespace Schedule

/-- A task still tries to force a status. Every attempt so far read the record, met a conflict and stored
nothing; each left one warning, and nothing was announced. No turn of the task was in vain. -/
structure Trying (s : Schedule) (es : List Incident) (i : Nat) (b : Breaker) (key : String)
    (target : Status) (fs : List Frame) (k : Nat) : Prop where
  stand : ∃ p, (s.amid es).stands[i]? = some ⟨p, fs⟩ ∧ p.IsBefore (.force b key target (k + 1)) ∧
    s.turnsOf i es + p.weight ≤ (Step.force b key target).weight
  allowed : (k : Int) < b.policy.attempts
  attempts : (s.attempts i es).length = k
  conflicts : ∀ a ∈ s.attempts i es, a.Reads key ∧ a.Conflicts
  warnings : s.seenOf Scene.warnings i es = (List.range' 1 k).reverse.map fun j => (key, target, j)
  news : s.seenOf Scene.news i es = []

structure Makes (s : Schedule) (es : List Incident) (i : Nat) (key : String) (a : Attempt) : Prop where
  before : a.before = (s.amid es).scene
  attempts : s.attempts i (es ++ [.move .turn]) = a :: s.attempts i es
  reads : a.Reads key

/-- How the overwrite ends with the next turn after so many conflicts, and with which result: the record
is stored, and announced if the status is another one; or the attempt fails otherwise, or was the last that
is allowed; or the task was cancelled while it waited. -/
inductive Ending (s : Schedule) (es : List Incident) (i : Nat) (b : Breaker) (key : String)
    (target : Status) (k : Nat) : Except Failure Answer → Prop
  | stored {a : Attempt} {r e : Record} {result : Except Failure Answer} : s.Makes es i key a →
      a.Stores b key target r e →
      (s.amid (es ++ [.move .turn])).scene.store.lookup key = .ok (some e) →
      b.Yields result (.ok (.record (some e))) →
      (result = .ok (.record (some e)) → s.seenOf Scene.news i (es ++ [.move .turn]) =
        if r.status = target then [] else b.tidings key r.status target) →
      Ending s es i b key target k result
  | failed {a : Attempt} {f : Failure} : s.Makes es i key a → a.Fails f →
      (f.isA .stale = true → (k + 1 : Nat) = b.policy.attempts) →
      (s.amid (es ++ [.move .turn])).scene.store = (s.amid es).scene.store →
      s.seenOf Scene.news i (es ++ [.move .turn]) = [] → Ending s es i b key target k (.error f)
  | cancelled : s.attempts i (es ++ [.move .turn]) = s.attempts i es →
      (s.amid (es ++ [.move .turn])).scene = (s.amid es).scene →
      Ending s es i b key target k (.error .cancellation)

variable {s : Schedule} {es : List Incident} {i : Nat} {b : Breaker} {key : String} {target : Status}
  {fs : List Frame} {k n : Nat} {p : Place}

theorem attempting_of_acting (h : s.stands[i]? = some ⟨.acting (.force b key target n), fs⟩) :
    attempting i s = [b.attempt key target s.scene] := by
  rw [attempting, h]

theorem attempting_of_waiting (h : s.stands[i]? = some ⟨p, fs⟩)
    (hp : p.IsBefore (.force b key target n)) (hn : p ≠ .acting (.force b key target n)) :
    attempting i s = [] := by
  rw [attempting, h]
  obtain ⟨step, rfl, -⟩ | rfl | rfl | rfl := hp
  · rfl
  · rfl
  · rfl
  · exact absurd rfl hn

theorem seenOf_turn {α : Type} {f : Scene → List α} {l : List α}
    (hi : (s.amid es).ready.head? = some i)
    (h : f (s.amid es).tick.scene = l ++ f (s.amid es).scene) :
    s.seenOf f i (es ++ [.move .turn]) = l ++ s.seenOf f i es := by
  rw [seenOf, ofTurns_concat, ofTurn, if_pos hi, Scene.newly_eq h]
  rfl

theorem seenOf_silent {α : Type} {f : Scene → List α} (hi : (s.amid es).ready.head? = some i)
    (h : f (s.amid es).tick.scene = f (s.amid es).scene) :
    s.seenOf f i (es ++ [.move .turn]) = s.seenOf f i es :=
  seenOf_turn (l := []) hi h

theorem turnsOf_turn (hi : (s.amid es).ready.head? = some i) :
    s.turnsOf i (es ++ [.move .turn]) = s.turnsOf i es + 1 := by
  rw [turnsOf, ofTurns_concat, ofTurn, if_pos hi, List.length_append, Nat.add_comm]
  rfl

theorem attempts_silent (hi : (s.amid es).ready.head? = some i)
    (h : attempting i (s.amid es) = []) :
    s.attempts i (es ++ [.move .turn]) = s.attempts i es := by
  rw [attempts, ofTurns_concat, ofTurn, if_pos hi, h]
  rfl

theorem makes_of_acting (hi : (s.amid es).ready.head? = some i)
    (h : (s.amid es).stands[i]? = some ⟨.acting (.force b key target n), fs⟩) :
    s.Makes es i key (b.attempt key target (s.amid es).scene) := by
  refine ⟨rfl, ?_, b.attempt_reads key target _⟩
  rw [attempts, ofTurns_concat, ofTurn, if_pos hi, attempting_of_acting h]
  rfl

/-- The overwrite has come to its end with the next turn, after so many conflicts. -/
structure Ends (s : Schedule) (es : List Incident) (i : Nat) (b : Breaker) (key : String)
    (target : Status) (fs : List Frame) (k : Nat) (result : Except Failure Answer) : Prop where
  trying : s.Trying es i b key target fs k
  stand : (s.amid (es ++ [.move .turn])).stands[i]? = some ⟨.returning result, fs⟩
  warnings : s.seenOf Scene.warnings i (es ++ [.move .turn]) = s.seenOf Scene.warnings i es
  ending : s.Ending es i b key target k result

theorem Trying.turns_le (h : s.Trying es i b key target fs k) :
    s.turnsOf i es ≤ 3 * b.policy.attempts := by
  obtain ⟨p, -, hbefore, hweight⟩ := h.stand
  have hplace := hbefore.three_le_weight
  have hallowed := h.allowed
  rw [Step.weight] at hweight
  omega

theorem Trying.aside (h : s.Trying es i b key target fs k) {e : Incident}
    (hturns : ∀ {α : Type} (f : Schedule → List α), ofTurns i f s (es ++ [e]) = ofTurns i f s es)
    (hstands : (s.amid (es ++ [e])).stands[i]? = (s.amid es).stands[i]?) :
    s.Trying (es ++ [e]) i b key target fs k := by
  obtain ⟨p, hp, hbefore, hweight⟩ := h.stand
  refine ⟨⟨p, hstands.trans hp, hbefore, ?_⟩, h.allowed, ?_, ?_, ?_, ?_⟩
  · rw [turnsOf, hturns]
    exact hweight
  · rw [Schedule.attempts, hturns]
    exact h.attempts
  · rw [Schedule.attempts, hturns]
    exact h.conflicts
  · rw [seenOf, hturns]
    exact h.warnings
  · rw [seenOf, hturns]
    exact h.news

section Acting

variable {σ₁ : Scene} {f : Failure}

theorem Trying.retry (h : s.Trying es i b key target fs k) (hi : (s.amid es).ready.head? = some i)
    (hp : (s.amid es).stands[i]? = some ⟨.acting (.force b key target (k + 1)), fs⟩)
    (hplay : (b.overwriteOnce key target).play (s.amid es).scene = (.error f, σ₁))
    (hstale : f.isA .stale = true) (hlt : (k + 1 : Nat) < b.policy.attempts)
    (hscene : (s.amid es).tick.scene = ((b.backOff key target (k + 1)).play σ₁).2)
    (hst : (s.amid (es ++ [.move .turn])).stands[i]? =
      some ⟨.requesting (.force b key target (k + 1 + 1)), fs⟩)
    (hweight : s.turnsOf i (es ++ [.move .turn]) +
      (Place.requesting (.force b key target (k + 1 + 1))).weight ≤ (Step.force b key target).weight) :
    s.Trying (es ++ [.move .turn]) i b key target fs (k + 1) := by
  have hmakes := makes_of_acting hi hp
  have hwarned : (s.amid es).tick.scene.warnings =
      [(key, target, k + 1)] ++ (s.amid es).scene.warnings := by
    rw [hscene, warnings_backOff, warnings_of_overwrite hplay]
    rfl
  refine ⟨⟨_, hst, .inr (.inl rfl), hweight⟩, hlt, ?_, ?_, ?_, ?_⟩
  · rw [hmakes.attempts, List.length_cons, h.attempts]
  · rw [hmakes.attempts]
    exact List.forall_mem_cons.2 ⟨⟨hmakes.reads, _, attempt_fails hplay, hstale⟩, h.conflicts⟩
  · rw [seenOf_turn hi hwarned, h.warnings, List.range'_concat, List.reverse_concat, Nat.one_mul,
      Nat.add_comm 1 k]
    rfl
  · refine (seenOf_silent hi ?_).trans h.news
    rw [hscene, news_backOff, news_of_overwrite hplay]

theorem Trying.store {previous : Status} {e : Record} (h : s.Trying es i b key target fs k)
    (hi : (s.amid es).ready.head? = some i)
    (hp : (s.amid es).stands[i]? = some ⟨.acting (.force b key target (k + 1)), fs⟩)
    (hplay : (b.overwriteOnce key target).play (s.amid es).scene = (.ok (previous, e), σ₁))
    (hscene : (s.amid es).tick.scene = ((b.confirm key target previous).play σ₁).2)
    (hst : (s.amid (es ++ [.move .turn])).stands[i]? =
      some ⟨.returning (((b.confirm key target previous).play σ₁).1.map fun _ => .record (some e)), fs⟩) :
    s.Ends es i b key target fs k
      (((b.confirm key target previous).play σ₁).1.map fun _ => .record (some e)) := by
  obtain ⟨r, rfl, hstores⟩ := attempt_stores hplay
  refine ⟨h, hst, ?_, .stored (makes_of_acting hi hp) hstores ?_
    ((b.confirm_yields key target σ₁ r.status).map _) fun hok => ?_⟩
  · refine seenOf_silent hi ?_
    rw [hscene, warnings_confirm, warnings_of_overwrite hplay]
  · have hlookup := hstores.2.2.2
    rw [attempt, hplay] at hlookup
    rw [amid_concat, meet, move, hscene, store_confirm]
    exact hlookup
  · rcases hconfirm : (b.confirm key target r.status).play σ₁ with ⟨f | ⟨⟩, σ₂⟩ <;>
      rw [hconfirm] at hok hscene
    · cases hok
    · refine (seenOf_turn hi ?_).trans ((congrArg _ h.news).trans (List.append_nil _))
      rw [hscene, news_confirm_of_ok hconfirm, news_of_overwrite hplay]

theorem Trying.fail (h : s.Trying es i b key target fs k) (hi : (s.amid es).ready.head? = some i)
    (hp : (s.amid es).stands[i]? = some ⟨.acting (.force b key target (k + 1)), fs⟩)
    (hplay : (b.overwriteOnce key target).play (s.amid es).scene = (.error f, σ₁))
    (hlast : f.isA .stale = true → b.policy.attempts ≤ (k + 1 : Nat))
    (hscene : (s.amid es).tick.scene = σ₁)
    (hst : (s.amid (es ++ [.move .turn])).stands[i]? = some ⟨.returning (.error f), fs⟩) :
    s.Ends es i b key target fs k (.error f) := by
  have hfails := attempt_fails hplay
  refine ⟨h, hst, ?_, .failed (makes_of_acting hi hp) hfails (fun hstale => ?_) ?_ ?_⟩
  · refine seenOf_silent hi ?_
    rw [hscene, warnings_of_overwrite hplay]
  · exact le_antisymm (Int.add_one_le_of_lt h.allowed) (hlast hstale)
  · have hstore := hfails.2
    rw [attempt, hplay] at hstore
    rw [amid_concat, meet, move, hscene]
    exact hstore
  · refine (seenOf_silent hi ?_).trans h.news
    rw [hscene, news_of_overwrite hplay]

end Acting

/-- A turn of the task either leaves it at an attempt or is its last one. -/
theorem Trying.turn (h : s.Trying es i b key target fs k) (hi : (s.amid es).ready.head? = some i) :
    (∃ k', s.Trying (es ++ [.move .turn]) i b key target fs k') ∨
      ∃ result, s.Ends es i b key target fs k result := by
  obtain ⟨p, hp, hbefore, hweight⟩ := h.stand
  have hhalted : ¬ (⟨p, fs⟩ : Stand).Halted := by
    obtain ⟨step, rfl, -⟩ | rfl | rfl | rfl := hbefore <;> intro hh <;> cases hh
  obtain ⟨st', hturn, hstands⟩ := tick_of_head hi hp hhalted
  have hst' : (s.amid (es ++ [.move .turn])).stands[i]? = some st' := by
    rw [amid_concat, meet, move, hstands, List.getElem?_set_self (List.getElem?_eq_some_iff.1 hp).1]
  have hlighter : ∀ {q}, st' = ⟨q, fs⟩ →
      s.turnsOf i (es ++ [.move .turn]) + q.weight ≤ (Step.force b key target).weight := by
    rintro q rfl
    have hlt : q.weight < p.weight := Nat.lt_of_add_lt_add_right hturn.lighter
    rw [turnsOf_turn hi]
    omega
  cases hturn.trial hbefore with
  | waits hwaits hscene hst hq =>
      have hattempts := attempts_silent hi (attempting_of_waiting hp hbefore hwaits)
      refine .inl ⟨k, ⟨_, hst'.trans (congrArg some hst), hq, hlighter hst⟩, h.allowed, ?_, ?_, ?_, ?_⟩
      · rw [hattempts, h.attempts]
      · rw [hattempts]
        exact h.conflicts
      · rw [seenOf_silent hi (congrArg _ hscene), h.warnings]
      · rw [seenOf_silent hi (congrArg _ hscene), h.news]
  | cancelled hwaits hscene hst =>
      refine .inr ⟨_, h, hst'.trans (congrArg some hst), seenOf_silent hi (congrArg _ hscene), .cancelled ?_ ?_⟩
      · exact attempts_silent hi (attempting_of_waiting hp hbefore hwaits)
      · rw [amid_concat, meet, move]
        exact hscene
  | conflicts hacting hplay hstale hlt hscene hst =>
      subst hacting
      exact .inl ⟨k + 1, h.retry hi hp hplay hstale hlt hscene (hst'.trans (congrArg some hst))
        (hlighter hst)⟩
  | stores hacting hplay hscene hst =>
      subst hacting
      exact .inr ⟨_, h.store hi hp hplay hscene (hst'.trans (congrArg some hst))⟩
  | fails hacting hplay hlast hscene hst =>
      subst hacting
      exact .inr ⟨_, h.fail hi hp hplay hlast hscene (hst'.trans (congrArg some hst))⟩

theorem Trying.meet (h : s.Trying es i b key target fs k) (e : Incident) :
    (∃ k', s.Trying (es ++ [e]) i b key target fs k') ∨
      e = .move .turn ∧ ∃ result, s.Ends es i b key target fs k result := by
  obtain ⟨p, hp, -⟩ := h.stand
  cases e with
  | change σ =>
      refine .inl ⟨k, h.aside (fun f => by rw [ofTurns_concat]; rfl) ?_⟩
      rw [amid_concat]
      rfl
  | move m =>
      cases m with
      | submit step =>
          refine .inl ⟨k, h.aside (fun f => by rw [ofTurns_concat]; rfl) ?_⟩
          rw [amid_concat, Schedule.meet, move, stands_add]
          exact List.getElem?_append_left (List.getElem?_eq_some_iff.1 hp).1
      | turn =>
          by_cases hi : (s.amid es).ready.head? = some i
          · exact (h.turn hi).imp id fun hends => ⟨rfl, hends⟩
          · refine .inl ⟨k, h.aside (fun f => ?_) ?_⟩
            · rw [ofTurns_concat, ofTurn, if_neg hi]
              rfl
            · rw [amid_concat, Schedule.meet, move]
              rcases (s.amid es).tick_moves with ⟨-, hstands, -⟩ | ⟨j, st, hj, -, st', -, hstands⟩
              · rw [hstands]
              · have hij : j ≠ i := by
                  rintro rfl
                  exact hi hj
                rw [hstands, List.getElem?_set_ne hij]

theorem Trying.start (hstart : s.stands[i]? = some ⟨.starting (.force b key target), fs⟩)
    (hpolicy : 1 ≤ b.policy.attempts) : s.Trying [] i b key target fs 0 where
  stand := ⟨_, hstart, .inl ⟨_, rfl, rfl⟩, (Nat.zero_add _).le⟩
  allowed := hpolicy
  attempts := rfl
  conflicts _ ha := absurd ha List.not_mem_nil
  warnings := rfl
  news := rfl

/-- Whatever happens meanwhile, a task that starts to force a status makes at most as many attempts as its
policy allows, and one more only after a conflict; so it goes on for at most three times as many turns of
its own. It ends with what the first attempt that met no conflict came to, or with the last conflict. -/
theorem overwrite_by_attempts
    (hstart : s.stands[i]? = some ⟨.starting (.force b key target), fs⟩)
    (hpolicy : 1 ≤ b.policy.attempts) (es : List Incident) :
    (s.turnsOf i es ≤ 3 * b.policy.attempts ∧ ∃ k, s.Trying es i b key target fs k) ∨
      ∃ before later k result, es = before ++ .move .turn :: later ∧
        s.Ends before i b key target fs k result := by
  induction es using List.reverseRecOn with
  | nil => exact .inl ⟨by change (0 : Int) ≤ _; omega, 0, .start hstart hpolicy⟩
  | append_singleton es e ih =>
      rcases ih with ⟨-, k, h⟩ | ⟨before, later, k, result, rfl, hends⟩
      · rcases h.meet e with ⟨k', h'⟩ | ⟨rfl, result, hends⟩
        · exact .inl ⟨h'.turns_le, k', h'⟩
        · exact .inr ⟨es, [], k, result, rfl, hends⟩
      · exact .inr ⟨before, later ++ [e], k, result, by rw [List.append_assoc, List.cons_append], hends⟩

def contestedScene : Scene where
  now := beginning
  store := .memory []
  faults a := if a = .write then [.stale 7] else []

def contested : Schedule := Schedule.add { scene := contestedScene } (.force {} "k" .open)

def contest : List Incident :=
  List.replicate 3 (.move .turn) ++
    [.change { now := beginning, store := .memory [("k", { status := .halfOpen, version := 4 })] }] ++
    List.replicate 3 (.move .turn)

theorem overwrite_by_attempts_contested :
    (∃ before later k result, contest = before ++ .move .turn :: later ∧
      contested.Ends before 0 {} "k" .open [] k result) ∧
      contested.seenOf Scene.warnings 0 contest = [("k", .open, 1)] ∧
      (contested.amid contest).finished.map (fun f => (f.1, f.2.isOk)) = [(0, true)] ∧
      ((contested.amid contest).scene.store.lookup "k").toOption.map
        (·.map fun r => (r.status, r.previousStatus, r.version)) =
          some (some (.open, some .halfOpen, 5)) := by
  have hdone : (contested.amid contest).stands[0]?.map Stand.weight = some 0 := by decide +kernel
  refine ⟨?_, by decide +kernel⟩
  have hstart : contested.stands[0]? = some ⟨.starting (.force {} "k" .open), []⟩ := rfl
  rcases overwrite_by_attempts hstart (by decide) contest with ⟨-, k, h⟩ | hends
  · obtain ⟨p, hp, hbefore, -⟩ := h.stand
    rw [hp] at hdone
    have hplace : p.weight = 0 := Option.some.inj hdone
    have hle := hbefore.three_le_weight
    omega
  · exact hends

def unwilling : Breaker where
  listeners := [.recording (some (.plain .abort none)) [.state]]

/-- Such a listener can get in the way of an attempt that came through: the record is stored, and its
failure is raised. -/
theorem overwrite_unreturned :
    (unwilling.attempt "k" .open (atRest beginning (.memory [])).scene).outcome.isOk = true ∧
      ((atRest beginning (.memory [])).submit (.force unwilling "k" .open)).finished.map
        (fun f => (f.1, f.2.isOk)) = [(0, false)] ∧
      (((atRest beginning (.memory [])).submit (.force unwilling "k" .open)).scene.store.lookup
        "k").toOption.map (·.map (·.status)) = some (some .open) := by
  decide +kernel

end Schedule

end KeyedBreaker
