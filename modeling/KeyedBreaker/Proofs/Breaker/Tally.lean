import KeyedBreaker.Proofs.Breaker.Call

namespace KeyedBreaker

theorem Record.totalCount_settle {α : Type} {c : Config} {status : Status} {r : Record}
    {result : Except Failure α} (h : ∀ f, result = .error f → f.isOrdinary = true) :
    (settle c status r result).1.totalCount = r.totalCount + 1 := by
  refine settle_elim (P := fun e => e.totalCount = r.totalCount + 1) ?_ (fun _ _ _ _ => rfl) rfl
    fun f hf hordinary => ?_
  · cases status <;> rfl
  · rw [h f hf] at hordinary
    cases hordinary

namespace Breaker

/-- Why a value or an ordinary failure of a function is not counted, and what is raised instead. -/
inductive Thwarted (b : Breaker) (o : Opening) (result : Except Failure Json) (t : Instant)
    (g : Failure) : Prop
  | classifier : (Record.settle b.config o.status o.record result).2 = .error g →
      g.isOrdinary = false → Thwarted b o result t g
  | clock : b.renewed t (Record.settle b.config o.status o.record result).1 = .error g →
      Thwarted b o result t g
  | listener {change} : b.change t (Record.settle b.config o.status o.record result).1 =
      .ok (some change) → g.isOrdinary = false → ¬ b.Polite → Thwarted b o result t g

/-- What the end of a function stores for its call: nothing when it was cancelled or aborted, else one
record, in which one call more is counted before the transition that is due. -/
inductive Tallied (b : Breaker) (key : String) (o : Opening) (result : Except Failure Json)
    (σ : Scene) : Except Failure Json → Scene → Prop
  | aborted {f σ'} : result = .error f → f.isOrdinary = false →
      σ'.store.history key = σ.store.history key → Tallied b key o result σ (.error f) σ'
  | counted {e answer σ'} : (∀ f, result = .error f → f.isOrdinary = true) →
      (Record.settle b.config o.status o.record result).1.totalCount = o.record.totalCount + 1 →
      b.renewed σ.now (Record.settle b.config o.status o.record result).1 = .ok e →
      σ'.store.history key = some e.next :: σ.store.history key →
      Tallied b key o result σ answer σ'
  | thwarted {g σ'} : (∀ f, result = .error f → f.isOrdinary = true) →
      b.Thwarted o result σ.now g → σ'.store.history key = σ.store.history key →
      Tallied b key o result σ (.error g) σ'

variable {b : Breaker} {key : String} {x : Option Record} {o : Opening}
  {result answer : Except Failure Json} {σ σ' : Scene}

theorem Finished.tallied (h : Finished b key x (Record.settle b.config o.status o.record result).1
      (Record.settle b.config o.status o.record result).2 σ answer σ')
    (hv : o.record.version = Record.versionOf x)
    (hordinary : ∀ f, result = .error f → f.isOrdinary = true) :
    Tallied b key o result σ answer σ' := by
  cases h with
  | unrenewed hr hl =>
      exact .thwarted hordinary (.clock hr) (by rw [hl.store.lookup_nil])
  | unannounced hc hf hb hl =>
      exact .thwarted hordinary (.listener hc hf hb) (by rw [hl.store.lookup_nil])
  | persisted hr hp _ =>
      have hl := hp.current ((version_renewed hr).trans ((Record.version_settle _).trans hv))
      exact .counted hordinary (Record.totalCount_settle hordinary) hr hl.store.history

theorem tallied_of_play (hq : σ.Quiet) (hx : σ.store.lookup key = .ok x)
    (hv : o.record.version = Record.versionOf x)
    (h : (b.conclude key o result).play σ = (answer, σ')) :
    Tallied b key o result σ answer σ' := by
  by_cases hordinary : ∀ f, result = .error f → f.isOrdinary = true
  · cases concluded_of_play hq hx h with
    | uncounted hr hf => exact .thwarted hordinary (.classifier hr hf) rfl
    | counted h => exact h.tallied hv hordinary
  · push Not at hordinary
    obtain ⟨f, rfl, hf⟩ := hordinary
    have hf := Bool.eq_false_iff.2 hf
    have hsettle : Record.settle b.config o.status o.record (.error f : Except Failure Json) =
        (o.record, .error f) := by
      rw [Record.settle, if_neg (by rw [hf]; exact Bool.false_ne_true)]
    rw [conclude_eq, hsettle, b.finish_of_not_ordinary key _ hf σ] at h
    cases h
    exact .aborted rfl hf rfl

end Breaker

end KeyedBreaker
