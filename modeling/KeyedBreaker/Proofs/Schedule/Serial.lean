import KeyedBreaker.Proofs.Breaker.Tally
import KeyedBreaker.Proofs.Schedule.Logged

namespace KeyedBreaker

open Act

theorem Breaker.current_of_failedStart {b : Breaker} {key : String} {w : Work} {o : Opening}
    {σ σ₁ σ₂ : Scene} {f : Failure} {x : Option Record} (hq : σ.Quiet)
    (hx : σ.store.lookup key = .ok x) (hbegin : (b.begin key).play σ = (.ok (o, .ok ()), σ₁))
    (hstart : (w.start key).play σ₁ = (.error f, σ₂)) :
    ∃ y, σ₂.store.lookup key = .ok y ∧ o.Current y ∧ σ₂.Quiet := by
  obtain ⟨out, σ', hp, hb⟩ := b.begin_begun hq hx
  rw [hbegin] at hp
  obtain ⟨hout, rfl⟩ := Prod.mk.inj hp
  obtain ⟨out', σ'', hp', hstarted⟩ := start_started w key σ₁
  rw [hstart] at hp'
  cases hp'
  cases hb with
  | begun ha hl =>
      obtain ⟨rfl, hperm⟩ := Prod.mk.inj (Except.ok.inj hout)
      refine ⟨_, ?_, ha.current hperm.symm, hstarted.idle_store.quiet (hl.quiet hq)⟩
      rw [hstarted.store]
      exact hl.store.lookup hx
  | _ => cases hout

namespace Schedule

variable {key : String} {s : Schedule} {i : Nat} {b : Breaker} {o : Breaker.Opening}
  {result : Except Failure Json} {τ : Scene}

/-- The function of a call on the key ends in the next turn, in this scene: it was running, or it fails
as soon as it starts. -/
inductive FunctionEnds (s : Schedule) (key : String) (i : Nat) :
    Breaker → Breaker.Opening → Except Failure Json → Scene → Prop
  | running {f result} : s.ending? = some (i, f, result) → f.key = key →
      FunctionEnds s key i f.breaker f.opening result s.scene
  | starting {b w inner fs o σ f τ} : s.ready.head? = some i →
      s.stands[i]? = some ⟨.acting (.call b key w inner), fs⟩ →
      (b.begin key).play s.scene = (.ok (o, .ok ()), σ) → (w.start key).play σ = (.error f, τ) →
      FunctionEnds s key i b o (.error f) τ

def Counts (s : Schedule) (key : String) (i : Nat) (b : Breaker) (o : Breaker.Opening)
    (result : Except Failure Json) (τ : Scene) : Prop :=
  ∃ answer x, s.tick.stands[i]?.map (·.place) = some (.returning (answer.map .value)) ∧
    τ.store.lookup key = .ok x ∧ o.Current x ∧ b.Tallied key o result τ answer s.tick.scene

theorem Unopposed.counts (h : s.Unopposed) (hends : s.FunctionEnds key i b o result τ) :
    s.Counts key i b o result τ := by
  have hq := h.grounded.scene
  cases hends with
  | @running f _ hend hk =>
      obtain ⟨p, fs, s', -, -, hst, hscene', hstands', htick⟩ := conclude_of_ending hend
      obtain ⟨hscene, hstands⟩ := conclude_seen (hstands' ▸ hst) result
      rw [← htick, hscene'] at hscene
      rw [← htick, hstands', hscene'] at hstands
      obtain ⟨x, hx, hc, -⟩ := h.current _ (List.mem_of_getElem? hst) f List.mem_cons_self
      subst hk
      refine ⟨((f.breaker.conclude f.key f.opening result).play s.scene).1, x, ?_, hx, hc, ?_⟩
      · rw [hstands, List.getElem?_set_self (List.getElem?_eq_some_iff.1 hst).1]
        rfl
      · rw [hscene]
        exact Breaker.tallied_of_play hq hx hc.version rfl
  | @starting _ w inner fs _ σ f _ hi hst hbegin hstart =>
      obtain ⟨x, hx⟩ := Store.lookup_of_hasLocks h.hasLocks key
      obtain ⟨y, hy, hc, hτ⟩ := Breaker.current_of_failedStart hq hx hbegin hstart
      have henter : (b.enterCall key w).play s.scene =
          (((b.conclude key o (.error f)).play τ).1.map .ended,
            ((b.conclude key o (.error f)).play τ).2) := by
        rw [Breaker.play_enterCall w hbegin, Breaker.goOn, hstart]
        exact play_map _ _ _
      generalize hp : (b.conclude key o (.error f)).play τ = out at henter
      obtain ⟨answer, τ'⟩ := out
      obtain ⟨st', hturn, hstands⟩ := s.tick_of_head hi hst (by intro hh; cases hh)
      suffices hends : st'.place = .returning (answer.map .value) ∧ s.tick.scene = τ' by
        refine ⟨answer, y, ?_, hy, hc, ?_⟩
        · rw [stand_of_turn hst hstands, ← hends.1]
          rfl
        · rw [hends.2]
          exact Breaker.tallied_of_play hτ hy hc.version hp
      generalize s.tick.scene = σ' at hturn ⊢
      cases hturn with
      | opens hp' =>
          rw [henter] at hp'
          exact absurd (Prod.mk.inj hp').1 Breaker.ended_ne_running
      | ends hp' | breaks hp' =>
          rw [henter] at hp'
          obtain ⟨hanswer, hscene⟩ := Prod.mk.inj hp'
          cases answer <;> cases hanswer
          exact ⟨rfl, hscene.symm⟩
      | concludes hends => obtain ⟨hp, -⟩ | ⟨⟨gate, hp⟩, -⟩ := hends <;> cases hp

/-- What has come of a run for a key, by the deeds that are noted for it. -/
structure Serial (σ : Scene) (key : String) (s : Schedule) (ds : List Deed) : Prop where
  /-- Nobody has the lock but the task whose operation is not over. -/
  holder : (s.locks key).holder = (ds.head?.filter (!·.isOver)).map (·.task)
  /-- An operation is over before the next one gets the lock. -/
  past : ∀ d ∈ ds.tail, d.isOver = true
  /-- Nobody stores a record but the task that has the lock. -/
  writer : s.tick.scene.store.history key ≠ s.scene.store.history key →
    ∃ i, s.ready.head? = some i ∧ (s.locks key).holder = some i
  /-- The records are those that the deeds store one after another. -/
  replayed : s.scene.store.history key = (σ.replay ds).store.history key
  /-- A function that ends is that of the latest deed, and has not ended before. -/
  latest : ∀ i f result, s.ending? = some (i, f, result) → f.key = key →
    ∃ w inner r ds', ds = ⟨i, .call f.breaker key w inner, .running r⟩ :: ds'
  counts : ∀ i b o result τ, s.FunctionEnds key i b o result τ → s.Counts key i b o result τ

theorem Logged.serial {σ : Scene} {ds : List Deed} (h : s.Logged σ key ds) (hs : s.Unopposed) :
    s.Serial σ key ds where
  holder := h.holder_eq hs.toGuarded
  past := h.past
  writer hne := by
    rcases s.tick_moves with ⟨hscene, -, -⟩ | ⟨i, st, hi, hst, st', hturn, -⟩
    · exact absurd (by rw [hscene]) hne
    · obtain ⟨k, rs, hstores⟩ := hs.exists_stores hst hturn
      have hk : key = k := by
        by_contra hk
        exact hne (hstores.gains.store.history_of_ne hk)
      subst hk
      have hrs : rs ≠ [] := by
        rintro rfl
        exact hne (by rw [hstores.gains.store.lookup_nil])
      exact ⟨i, hi, hs.exclusive.holder_of_occupies hst
        (Stand.occupies_of_key? (hstores.acts hrs))⟩
  replayed := h.history.symm
  latest i f result hend hk := by
    obtain ⟨p, fs, -, -, hp, hst, -⟩ := conclude_of_ending hend
    have hocc : (⟨p, f :: fs⟩ : Stand).occupies key ≠ 0 :=
      Stand.occupies_ne_zero.2 (.inr ⟨f, List.mem_cons_self, hk⟩)
    cases h.held i _ hst hocc with
    | ready hop _ => rcases hp with rfl | ⟨gate, rfl⟩ <;> cases hop
    | @running g w inner r ds hg hkg _ =>
        rcases List.mem_cons.1 hg with rfl | hg
        · exact ⟨w, inner, r, ds, rfl⟩
        · exact absurd (hkg.trans hk.symm)
            (Turn.key_ne_of_cons (hs.occupies_le_one (List.mem_of_getElem? hst)) hg)
  counts _ _ _ _ _ hends := hs.counts hends

/-- Over a store in memory that starts empty, breakers with whatever configurations guard one function
for a key at a time, no write of theirs meets another, and for every key the records are those of its
operations done one after another, in the order in which they got the lock and by the clocks that they
read. The end of every function is counted once. -/
theorem operations_serialize (t : Instant) {ms : List Move}
    (hsteps : ∀ step, .submit step ∈ ms → step.Everywhere (Step.Undisturbed fun _ => True)) :
    ((atRest t (.memory [])).after ms).running.Nodup ∧
      ((atRest t (.memory [])).after ms).scene.Unopposed ∧
      ∀ key, ((atRest t (.memory [])).after ms).Serial (atRest t (.memory [])).scene key
        ((atRest t (.memory [])).deeds key ms []) := by
  have hs := (unopposed_atRest t).after hsteps
  exact ⟨hs.toGuarded.nodup_running, hs.scene,
    fun key => ((Logged.atRest t key).after (unopposed_atRest t) hsteps).serial hs⟩

def callsInLine : List Move :=
  [.submit (.call {} "k" { gate := some "g" } [])] ++ List.replicate 4 .turn ++
    [.submit (.call {} "k" { result := .error (.plain .value none) } [])] ++
    List.replicate 2 .turn ++ [.submit (.release "g")] ++ List.replicate 6 .turn

theorem operations_serialize_of_callsInLine :
    (∀ step, .submit step ∈ callsInLine → step.Everywhere (Step.Undisturbed fun _ => True)) ∧
      (((atRest beginning (.memory [])).deeds "k" callsInLine []).map fun d =>
        (d.task, d.isOver)) = [(1, false), (0, true)] ∧
      ((atRest beginning (.memory [])).after callsInLine).Serial
        (atRest beginning (.memory [])).scene "k"
        ((atRest beginning (.memory [])).deeds "k" callsInLine []) := by
  have hsteps : ∀ step, .submit step ∈ callsInLine →
      step.Everywhere (Step.Undisturbed fun _ => True) := by
    simp [callsInLine, Step.Everywhere, Step.EverywhereIn, Step.Undisturbed, Step.ByBreakers,
      Step.Faultless]
  exact ⟨hsteps, by decide +kernel, (operations_serialize beginning hsteps).2.2 "k"⟩

end Schedule

end KeyedBreaker
