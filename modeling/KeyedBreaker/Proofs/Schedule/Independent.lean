import KeyedBreaker.Proofs.Schedule.Aside

namespace KeyedBreaker

namespace Step

/-- Whether a step stays when only those on a key are left: it is on the key, or on none. A cancellation
stays if the step that it cancels is on the key. -/
def staysFor (key : String) (steps : List Step) : Step → Bool
  | .cancel j => steps[j]?.any fun target => target.key? = some key
  | step => step.key?.all (· = key)

variable {key k : String} {steps : List Step} {step : Step}

theorem staysFor_of_key (h : step.key? = some k) : step.staysFor key steps = true ↔ k = key := by
  cases step <;> cases h <;> simp [staysFor, key?]

theorem elsewhere_of_not_stays (h : step.staysFor key steps = false) :
    (∃ k, step.key? = some k ∧ key ≠ k) ∨ ∃ j, step = .cancel j := by
  cases hkey : step.key? with
  | some k =>
      refine .inl ⟨k, rfl, fun hk => ?_⟩
      rw [(staysFor_of_key hkey).2 hk.symm] at h
      cases h
  | none =>
      cases step with
      | cancel j => exact .inr ⟨j, rfl⟩
      | _ => cases hkey <;> cases h

end Step

namespace Selection

variable {key : String} {steps : List Step} {i j : Nat}

def rankOn (key : String) (steps : List Step) (i : Nat) : Nat :=
  (steps.take i).countP (Step.staysFor key steps)

theorem rankOn_succ : rankOn key steps (i + 1) =
    rankOn key steps i + if steps[i]?.any (Step.staysFor key steps) then 1 else 0 := by
  rw [rankOn, List.take_add_one, List.countP_append, rankOn]
  cases steps[i]? with
  | none => rfl
  | some step => simp [List.countP_singleton]

theorem rankOn_lt (hi : steps[i]?.any (Step.staysFor key steps) = true) (hij : i < j) :
    rankOn key steps i < rankOn key steps j := by
  have hle : rankOn key steps (i + 1) ≤ rankOn key steps j :=
    (List.take_sublist_take_left hij).countP_le
  rw [rankOn_succ, if_pos hi] at hle
  exact hle

/-- The tasks of the steps that stay when only those on a key are left. -/
def onKey (key : String) (steps : List Step) : Selection where
  stays i := steps[i]?.any (Step.staysFor key steps)
  rank := rankOn key steps
  injective {i j} hi hj h := by
    rcases Nat.lt_trichotomy i j with hij | hij | hij
    · exact absurd h (Nat.ne_of_lt (rankOn_lt hi hij))
    · exact hij
    · exact absurd h.symm (Nat.ne_of_lt (rankOn_lt hj hij))

theorem stays_onKey {step : Step} (h : steps[i]? = some step) :
    (onKey key steps).stays i = step.staysFor key steps := by
  change steps[i]?.any _ = _
  rw [h, Option.any_some]

end Selection

/-- What is left of the steps when only those on a key stay. -/
def Step.leftFor (key : String) (steps : List Step) : List Step :=
  (steps.filter (Step.staysFor key steps)).map (Step.renumber (Selection.rankOn key steps))

theorem Step.Plain.everywhere {step : Step} (h : step.Plain) : step.Everywhere (· = step) := by
  cases step with
  | call b key w inner =>
      obtain ⟨rfl, -⟩ := h
      exact ⟨rfl, trivial⟩
  | _ => rfl

structure Stand.Within (step : Step) (st : Stand) : Prop where
  obeys : st.Obeys (· = step)
  frames : ∀ f ∈ st.frames, step.key? = some f.key ∧ f.inner = []

theorem Operation.key?_step (op : Operation) : op.step.key? = some op.key := by
  cases op <;> rfl

section

variable {step : Step} {st st' : Stand} {σ σ' : Scene}

theorem Stand.within_starting (h : step.Plain) : Stand.Within step ⟨.starting step, []⟩ where
  obeys := obeys_starting h.everywhere
  frames _ hf := absurd hf List.not_mem_nil

namespace Stand.Within

theorem starting (h : st.Within step) {step' : Step} (he : st.place = .starting step') : step' = step :=
  (h.obeys.starting he).self

theorem operating (h : st.Within step) {op : Operation}
    (he : st.place = .requesting op ∨ st.place = .queued op ∨ st.place = .acting op) : op.step = step :=
  (h.obeys.operating he).self

end Stand.Within

theorem Turn.within (h : Turn σ st σ' st') (hw : st.Within step) (hplain : step.Plain) :
    st'.Within step := by
  refine ⟨h.obeys hw.obeys, ?_⟩
  have hf := hw.frames
  cases h with
  | opens =>
      obtain rfl := hw.operating (.inr (.inr rfl))
      exact List.forall_mem_cons.2 ⟨⟨rfl, hplain.1⟩, hf⟩
  | nests hi =>
      rw [(hf _ List.mem_cons_self).2] at hi
      cases hi
  | concludes => exact fun f hm => hf f (List.mem_cons_of_mem _ hm)
  | _ => exact hf

end

namespace Schedule

variable {key : String} {steps : List Step} {s u : Schedule} {i j : Nat} {t : Task}

/-- The tasks carry out the steps. Those on no key do so at once: they are done when another task goes
on. -/
structure Carries (steps : List Step) (s : Schedule) : Prop where
  tidy : s.Tidy
  within : ∀ (i : Nat) (st : Stand), s.stands[i]? = some st →
    ∃ step, steps[i]? = some step ∧ st.Within step
  prompt : ∀ (i : Nat) (st : Stand) (step : Step), s.stands[i]? = some st → steps[i]? = some step →
    step.key? = none → st.place = .done ∨ s.ready.head? = some i

theorem ready_begin (s : Schedule) (t : Task) (i : Nat) (step : Step) :
    ∃ woken, (s.begin t i step).ready = s.ready ++ woken := by
  have hsame : ∀ {s' : Schedule}, s'.ready = s.ready → ∃ woken, s'.ready = s.ready ++ woken :=
    fun h => ⟨[], h.trans (List.append_nil _).symm⟩
  unfold begin
  split
  · exact hsame rfl
  · cases step with
    | release gate => exact ⟨_, rfl⟩
    | cancel j =>
        change ∃ woken, (s.cancel j).2.ready = s.ready ++ woken
        unfold Schedule.cancel
        split
        · exact hsame rfl
        · split <;> dsimp only
          · exact hsame rfl
          · split
            · exact ⟨[j], rfl⟩
            · exact hsame rfl
          · split
            · exact ⟨[j], rfl⟩
            · exact hsame rfl
          · exact hsame rfl
    | _ => exact hsame rfl

theorem prompt_tick {σ : Scene} {st st' : Stand} {step : Step} (hhead : s.ready.head? = some i)
    (hi : s.stands[i]? = some st) (hw : st.Within step) (hkey : step.key? = none)
    (hturn : Turn s.scene st σ st') : st'.place = .done ∨ s.tick.ready.head? = some i := by
  obtain ⟨t, ht, hstand⟩ := task_of_stands hi
  obtain ⟨place, frames, flag⟩ := t
  have hoperating : ∀ op : Operation, op.step ≠ step := by
    intro op ho
    rw [← ho, op.key?_step] at hkey
    cases hkey
  have hframes : st.frames = [] := by
    refine List.eq_nil_iff_forall_not_mem.2 fun f hf => ?_
    have hk := (hw.frames f hf).1
    rw [hkey] at hk
    cases hk
  have hstarts : ∀ {step' fs}, st = ⟨.starting step', fs⟩ → s.tick.ready.head? = some i := by
    intro step' fs he
    rw [he] at hframes hstand
    obtain rfl : fs = [] := hframes
    cases hstand
    rw [tick_eq_proceed hhead ht]
    obtain ⟨woken, hready⟩ := s.ready_begin ⟨.starting step', [], flag⟩ i step'
    change (s.begin _ i step').ready.head? = some i
    rw [hready, List.head?_append, hhead]
    rfl
  cases hturn with
  | asks ho =>
      exact absurd (Turn.everywhere_operation ho (hw.obeys.starting rfl)).self (hoperating _)
  | plays | signals => exact .inr (hstarts rfl)
  | waits | enters => exact absurd (hw.operating (.inl rfl)) (hoperating _)
  | wakes | leaves => exact absurd (hw.operating (.inr (.inl rfl))) (hoperating _)
  | opens | ends | breaks | forces | retries | fails =>
      exact absurd (hw.operating (.inr (.inr rfl))) (hoperating _)
  | finishes => exact .inl rfl
  | nests | pauses | concludes | resumes => cases hframes

theorem Carries.tick (h : s.Carries steps) (hsteps : ∀ step ∈ steps, step.Plain) :
    s.tick.Carries steps := by
  cases hhead : s.ready.head? with
  | none =>
      rw [tick_of_nil (List.head?_eq_none_iff.1 hhead)]
      exact h
  | some i =>
      obtain ⟨st, hi, hst⟩ := h.tidy.head hhead
      obtain ⟨st', hturn, hstands⟩ := tick_of_head hhead hi hst
      obtain ⟨step, hstep, hw⟩ := h.within i st hi
      have hlt := (List.getElem?_eq_some_iff.1 hi).1
      refine ⟨h.tidy.tick, fun j st₁ hj => ?_, fun j st₁ step₁ hj hstep₁ hkey => ?_⟩
      · rw [hstands] at hj
        by_cases hij : i = j
        · subst hij
          rw [List.getElem?_set_self hlt] at hj
          cases hj
          exact ⟨step, hstep, hturn.within hw (hsteps step (List.mem_of_getElem? hstep))⟩
        · rw [List.getElem?_set_ne hij] at hj
          exact h.within j st₁ hj
      · rw [hstands] at hj
        by_cases hij : i = j
        · subst hij
          rw [List.getElem?_set_self hlt] at hj
          cases hj
          rw [hstep] at hstep₁
          cases hstep₁
          exact prompt_tick hhead hi hw hkey hturn
        · rw [List.getElem?_set_ne hij] at hj
          refine .inl ((h.prompt j st₁ step₁ hj hstep₁ hkey).resolve_right fun hj' => hij ?_)
          rw [hhead] at hj'
          exact Option.some.inj hj'

theorem Carries.add (h : s.Carries steps) (hsteps : ∀ step ∈ steps, step.Plain) (hrest : s.ready = [])
    {step : Step} (hstep : steps[s.tasks.length]? = some step) : (s.add step).Carries steps := by
  have hlength : s.stands.length = s.tasks.length := List.length_map _
  refine ⟨h.tidy.add step, fun i st hi => ?_, fun i st step₁ hi hstep₁ hkey => ?_⟩
  · rw [stands_add] at hi
    rcases of_add hi with hi | ⟨rfl, rfl⟩
    · exact h.within i st hi
    · rw [hlength]
      exact ⟨step, hstep, Stand.within_starting (hsteps step (List.mem_of_getElem? hstep))⟩
  · rw [stands_add] at hi
    rcases of_add hi with hi | ⟨rfl, rfl⟩
    · refine .inl ((h.prompt i st step₁ hi hstep₁ hkey).resolve_right fun hhead => ?_)
      rw [hrest] at hhead
      cases hhead
    · refine .inr ?_
      change (s.ready ++ _).head? = _
      rw [hrest, hlength]
      rfl

theorem Carries.stays_of_waits (h : s.Carries steps) {k : String} {w : Waiter}
    (hw : w ∈ (s.locks k).queue) : (Selection.onKey key steps).stays w.task = true ↔ k = key := by
  obtain ⟨st, hst, hspot⟩ := h.tidy.line.regular.waits_of_mem_lock hw
  obtain ⟨step, hstep, hwithin⟩ := h.within w.task st hst
  rw [Selection.stays_onKey hstep]
  obtain ⟨place, frames⟩ := st
  cases place with
  | queued op =>
      cases hspot
      refine Step.staysFor_of_key ?_
      rw [← hwithin.operating (.inr (.inl rfl)), op.key?_step]
  | _ => cases hspot

theorem Carries.concerns (h : s.Carries steps) (hsteps : ∀ step ∈ steps, step.Plain)
    (ht : s.tasks[i]? = some t) (hi : (Selection.onKey key steps).stays i = true) :
    Concerns (Selection.onKey key steps) key s t := by
  obtain ⟨step, hstep, hw⟩ := h.within i _ (stands_of_task ht)
  rw [Selection.stays_onKey hstep] at hi
  have honKey : ∀ k ∈ step.key?, k = key := fun k hk => (Step.staysFor_of_key hk).1 hi
  refine ⟨fun he => ?_, fun he => ?_, fun f hf => ?_⟩
  · obtain rfl := hw.starting he
    refine ⟨hsteps _ (List.mem_of_getElem? hstep), honKey, fun {j} he => ?_⟩
    subst he
    obtain ⟨target, htarget, hkey⟩ := (Option.any_eq_true _ _).1 hi
    have hkey : target.key? = some key := of_decide_eq_true hkey
    refine ⟨?_, fun t' op ht' hp => ?_⟩
    · rw [Selection.stays_onKey htarget]
      exact (Step.staysFor_of_key hkey).2 rfl
    · obtain ⟨step', hstep', hw'⟩ := h.within j _ (stands_of_task ht')
      rw [htarget] at hstep'
      cases hstep'
      rw [← hw'.operating (.inr (.inl hp)), op.key?_step] at hkey
      exact Option.some.inj hkey
  · refine honKey _ ?_
    rw [← hw.operating he]
    exact Operation.key?_step _
  · obtain ⟨hkey, hinner⟩ := hw.frames f hf
    exact ⟨honKey _ hkey, hinner⟩

/-- A task that does not stay is on another key, and so is every task that it cancels, unless that is
done. -/
theorem Carries.strays (h : s.Carries steps) (hsteps : ∀ step ∈ steps, step.Plain)
    (hhead : s.ready.head? = some i) (ht : s.tasks[i]? = some t)
    (hi : (Selection.onKey key steps).stays i = false) :
    Strays (Selection.onKey key steps) key s t := by
  obtain ⟨step, hstep, hw⟩ := h.within i _ (stands_of_task ht)
  have hi' := hi
  rw [Selection.stays_onKey hstep] at hi
  have helsewhere : ∀ k, step.key? = some k → key ≠ k := by
    rintro k hk rfl
    rw [(Step.staysFor_of_key hk).2 rfl] at hi
    cases hi
  have hplain := hsteps step (List.mem_of_getElem? hstep)
  refine ⟨fun he => ?_, fun he => ?_, fun f hf => ?_⟩
  · obtain rfl := hw.starting he
    refine ⟨hplain, Step.elsewhere_of_not_stays hi, fun {j} he => ?_⟩
    subst he
    cases hj : (Selection.onKey key steps).stays j with
    | false =>
        refine .inl ⟨rfl, fun t' op ht' hp hk => ?_⟩
        obtain ⟨target, htarget, hw'⟩ := h.within j _ (stands_of_task ht')
        rw [Selection.stays_onKey htarget] at hj
        have hkey : target.key? = some key := by
          rw [← hw'.operating (.inr (.inl hp)), op.key?_step, hk]
        rw [(Step.staysFor_of_key hkey).2 rfl] at hj
        cases hj
    | true =>
        refine .inr fun t' ht' => ?_
        have hij : i ≠ j := fun he => by rw [he, hj] at hi'; cases hi'
        obtain ⟨target, htarget, -⟩ := h.within j _ (stands_of_task ht')
        rw [Selection.stays_onKey htarget] at hj
        have hkey : target.key? = none := by
          by_contra hk
          obtain ⟨k, hk⟩ := Option.ne_none_iff_exists'.1 hk
          obtain rfl := (Step.staysFor_of_key hk).1 hj
          have hcancels : steps[j]?.any (fun target => target.key? = some k) = true := by
            rw [htarget]
            exact decide_eq_true hk
          exact absurd (hi.symm.trans hcancels) Bool.false_ne_true
        refine (h.prompt j _ target (stands_of_task ht') htarget hkey).resolve_right fun hj' => hij ?_
        rw [hhead] at hj'
        exact Option.some.inj hj'
  · rw [hw.operating he]
    refine ⟨helsewhere _ ?_, hplain⟩
    rw [← hw.operating he]
    exact Operation.key?_step _
  · obtain ⟨hkey, hinner⟩ := hw.frames f hf
    exact ⟨helsewhere _ hkey, hinner⟩

theorem Carries.shows_tick (h : s.Carries steps) (hsteps : ∀ step ∈ steps, step.Plain)
    (hs : s.Shows (Selection.onKey key steps) key u) (hhead : s.ready.head? = some i) :
    if (Selection.onKey key steps).stays i then s.tick.Shows (Selection.onKey key steps) key u.tick
    else s.tick.Shows (Selection.onKey key steps) key u := by
  obtain ⟨st, hi, -⟩ := h.tidy.head hhead
  obtain ⟨t, ht, -⟩ := task_of_stands hi
  split
  · rename_i hstays
    exact hs.tick hhead hstays (fun w hw => (h.stays_of_waits hw).2 rfl) ht
      (h.concerns hsteps ht hstays)
  · rename_i hstays
    rw [Bool.not_eq_true] at hstays
    refine hs.tick_aside hhead hstays ht (h.strays hsteps hhead ht hstays) fun k hk w hw => ?_
    exact Bool.eq_false_iff.2 fun hw' => hk ((h.stays_of_waits hw).1 hw').symm

/-- Both schedules go on until nobody can go on. -/
theorem Carries.shows_runFor (h : s.Carries steps) (hsteps : ∀ step ∈ steps, step.Plain)
    (hs : s.Shows (Selection.onKey key steps) key u) (hu : u.Tidy) {n m : Nat} (hn : s.weight ≤ n)
    (hm : u.weight ≤ m) :
    (s.runFor n).Carries steps ∧ (s.runFor n).Shows (Selection.onKey key steps) key (u.runFor m) := by
  induction n generalizing s u m with
  | zero =>
      have hrest : s.ready = [] := h.tidy.runFor_rests hn
      have hrest' : u.ready = [] := by rw [hs.ready, hrest]; rfl
      rw [runFor_of_rest hrest', runFor_of_rest hrest]
      exact ⟨h, hs⟩
  | succ n ih =>
      cases hhead : s.ready.head? with
      | none =>
          have hrest := List.head?_eq_none_iff.1 hhead
          have hrest' : u.ready = [] := by rw [hs.ready, hrest]; rfl
          rw [runFor_of_rest hrest', runFor_of_rest hrest]
          exact ⟨h, hs⟩
      | some i =>
          have hlt := h.tidy.lighter hhead
          have hn' : s.tick.weight ≤ n := by omega
          have htick := h.shows_tick hsteps hs hhead
          rw [runFor_of_head hhead]
          split at htick
          · rename_i hstays
            have hhead' : u.ready.head? = some ((Selection.onKey key steps).rank i) := by
              rw [hs.ready]
              exact Selection.head?_numbers hhead hstays
            have hlt' := hu.lighter hhead'
            obtain ⟨m, rfl⟩ : ∃ k, m = k + 1 := ⟨m - 1, by omega⟩
            rw [runFor_of_head hhead']
            exact ih (h.tick hsteps) htick hu.tick hn' (by omega)
          · exact ih (h.tick hsteps) htick hu hn' hm

theorem length_tick (s : Schedule) : s.tick.tasks.length = s.tasks.length := by
  have hlength : ∀ s : Schedule, s.stands.length = s.tasks.length := fun _ => List.length_map _
  rw [← hlength, ← hlength]
  rcases s.tick_moves with ⟨-, hstands, -⟩ | ⟨i, st, -, -, st', -, hstands⟩ <;> rw [hstands]
  exact List.length_set

theorem length_runFor (n : Nat) (s : Schedule) : (s.runFor n).tasks.length = s.tasks.length := by
  induction n generalizing s with
  | zero => rfl
  | succ n ih =>
      rw [runFor]
      split
      · rfl
      · rw [ih, length_tick]

theorem getElem?_concat_ne {α : Type} {l : List α} {x : α} {j : Nat} (h : j ≠ l.length) :
    (l ++ [x])[j]? = l[j]? := by
  rcases Nat.lt_or_gt_of_ne h with hlt | hgt
  · exact List.getElem?_append_left hlt
  · rw [List.getElem?_eq_none (by simp; omega), List.getElem?_eq_none (by omega)]

namespace Shows

variable {sel : Selection}

theorem add (h : s.Shows sel key u) (hstays : sel.stays s.tasks.length = true)
    (hrank : sel.rank (s.tasks.length + 1) = sel.rank s.tasks.length + 1) (step : Step) :
    (s.add step).Shows sel key (u.add (step.renumber sel.rank)) := by
  refine ⟨h.scene, fun j hj => ?_, ?_, ?_, h.lock, h.gates, h.finished⟩
  · change (u.tasks ++ [_])[sel.rank j]? = (s.tasks ++ [_])[j]?.map _
    by_cases hlast : j = s.tasks.length
    · subst hlast
      rw [← h.count, List.getElem?_concat_length, List.getElem?_concat_length]
      rfl
    · rw [getElem?_concat_ne hlast, getElem?_concat_ne, h.tasks j hj]
      rw [h.count]
      exact fun hr => hlast (sel.injective hj hstays hr)
  · change (u.tasks ++ [_]).length = sel.rank (s.tasks ++ [_]).length
    rw [List.length_append, List.length_append, List.length_singleton, List.length_singleton, hrank,
      h.count]
  · change u.ready ++ [u.tasks.length] = sel.numbers (s.ready ++ [s.tasks.length])
    rw [Selection.numbers_append, Selection.numbers_self hstays, h.ready, h.count]

theorem add_aside (h : s.Shows sel key u) (hstays : sel.stays s.tasks.length = false)
    (hrank : sel.rank (s.tasks.length + 1) = sel.rank s.tasks.length) (step : Step) :
    (s.add step).Shows sel key u := by
  refine ⟨h.scene, fun j hj => ?_, ?_, ?_, h.lock, h.gates, h.finished⟩
  · have hlast : j ≠ s.tasks.length := fun he => by rw [he, hstays] at hj; cases hj
    change _ = (s.tasks ++ [_])[j]?.map _
    rw [getElem?_concat_ne hlast]
    exact h.tasks j hj
  · change _ = sel.rank (s.tasks ++ [_]).length
    rw [List.length_append, List.length_singleton, hrank, h.count]
  · change _ = sel.numbers (s.ready ++ [s.tasks.length])
    have hlast : sel.numbers [s.tasks.length] = [] :=
      Selection.numbers_other fun j hj => List.mem_singleton.1 hj ▸ hstays
    rw [Selection.numbers_append, hlast, List.append_nil, h.ready]

end Shows

theorem Carries.shows_submit (h : s.Carries steps) (hsteps : ∀ step ∈ steps, step.Plain)
    (hs : s.Shows (Selection.onKey key steps) key u) (hu : u.Tidy) (hrest : s.ready = []) {step : Step}
    (hstep : steps[s.tasks.length]? = some step) :
    (s.submit step).Carries steps ∧
      if step.staysFor key steps then (s.submit step).Shows (Selection.onKey key steps) key
        (u.submit (step.renumber (Selection.rankOn key steps)))
      else (s.submit step).Shows (Selection.onKey key steps) key u := by
  have hadd := h.add hsteps hrest hstep
  have hstays : (Selection.onKey key steps).stays s.tasks.length = step.staysFor key steps :=
    Selection.stays_onKey hstep
  have hrank : (Selection.onKey key steps).rank (s.tasks.length + 1) = _ := Selection.rankOn_succ
  rw [hstep, Option.any_some] at hrank
  split
  · rename_i hstep'
    rw [hstep'] at hstays
    rw [if_pos hstep'] at hrank
    exact hadd.shows_runFor hsteps (hs.add hstays hrank step) (hu.add _) le_rfl le_rfl
  · rename_i hstep'
    rw [Bool.not_eq_true] at hstep'
    rw [hstep'] at hstays
    rw [hstep', if_neg Bool.false_ne_true] at hrank
    have hrest' : u.ready = [] := by rw [hs.ready, hrest]; rfl
    have hrun := hadd.shows_runFor hsteps (hs.add_aside hstays hrank step) hu le_rfl le_rfl
    rw [runFor_of_rest hrest'] at hrun
    exact hrun

theorem Carries.shows_submitAll (before : List Step) {rest : List Step} (hall : before ++ rest = steps)
    (hlength : s.tasks.length = before.length) (h : s.Carries steps)
    (hsteps : ∀ step ∈ steps, step.Plain) (hs : s.Shows (Selection.onKey key steps) key u)
    (hu : u.Tidy) (hrest : s.ready = []) :
    (s.submitAll rest).2.Shows (Selection.onKey key steps) key
      (u.submitAll ((rest.filter (Step.staysFor key steps)).map
        (Step.renumber (Selection.rankOn key steps)))).2 := by
  induction rest generalizing s u before with
  | nil => exact hs
  | cons step rest ih =>
      have hstep : steps[s.tasks.length]? = some step := by
        rw [← hall, hlength, List.getElem?_append_right le_rfl, Nat.sub_self]
        rfl
      have hall' : (before ++ [step]) ++ rest = steps := by rw [List.append_assoc]; exact hall
      have hlength' : (s.submit step).tasks.length = (before ++ [step]).length := by
        change ((s.add step).runFor _).tasks.length = _
        rw [length_runFor, List.length_append, ← hlength]
        exact List.length_append
      obtain ⟨hcarries, hshows⟩ := h.shows_submit hsteps hs hu hrest hstep
      have hrest' := h.tidy.submit_rests step
      change (submitAll (s.submit step) rest).2.Shows _ key _
      split at hshows
      · rename_i hstays
        rw [List.filter_cons_of_pos hstays, List.map_cons]
        exact ih _ hall' hlength' hcarries hshows (hu.submit _) hrest'
      · rename_i hstays
        rw [List.filter_cons_of_neg hstays]
        exact ih _ hall' hlength' hcarries hshows hu hrest'

theorem carries_atRest (t : Instant) (store : Store) (steps : List Step) :
    (atRest t store).Carries steps := by
  refine ⟨tidy_atRest t store, fun i st hi => ?_, fun i st step hi => ?_⟩ <;> cases hi

theorem shows_atRest (t : Instant) {store : Store} (hstore : ∀ k, ∃ x, store.lookup k = .ok x)
    (key : String) (steps : List Step) :
    (atRest t store).Shows (Selection.onKey key steps) key (atRest t store) := by
  refine ⟨⟨rfl, rfl, ⟨fun _ => rfl, fun _ => rfl⟩, rfl, rfl, rfl, hstore, rfl⟩, fun i hi => rfl, rfl, rfl,
    rfl, fun gate => rfl, rfl⟩

/-- Keys are independent. Over a store whose records can all be read, be it of either kind, take any
scenario without faults of calls, looks at the status of a key, overwrites, gates, cancellations and
movements of the clock, whose functions make no further steps and move no clock. Leaving out all steps that
are on other keys than a given one, and the cancellations of their tasks, changes neither the results of
those that are left, nor the order in which they end, nor what is seen of the key, nor what is written for
it. -/
theorem keys_independent (t : Instant) {store : Store} (hstore : ∀ k, ∃ x, store.lookup k = .ok x)
    {steps : List Step} (hsteps : ∀ step ∈ steps, step.Plain) (key : String) :
    let full := ((atRest t store).submitAll steps).2
    let left := ((atRest t store).submitAll (Step.leftFor key steps)).2
    left.finished = (Selection.onKey key steps).results full.finished ∧
      left.scene.about key = full.scene.about key ∧
      left.scene.store.lookup key = full.scene.store.lookup key ∧
      left.scene.store.history key = full.scene.store.history key := by
  have hshows := Carries.shows_submitAll [] rfl rfl (carries_atRest t store steps) hsteps
    (shows_atRest t hstore key steps) (tidy_atRest t store) rfl
  exact ⟨hshows.finished, hshows.scene.about, hshows.scene.lookup, hshows.scene.history⟩

def twoKeys : List Step :=
  [.call {} "a" { gate := some "g" } [], .call {} "b" { gate := some "g" } [], .call {} "a" {} [],
    .force {} "b" .isolated, .cancel 1, .cancel 2, .status {} "a", .call {} "b" {} [], .release "g",
    .resetIn {} "a"]

theorem keys_independent_twoKeys :
    ((atRest beginning (.memory [])).submitAll (Step.leftFor "a" twoKeys)).2.finished.map (·.1) =
        [5, 0, 4, 3, 1, 2] ∧
      ((atRest beginning (.memory [])).submitAll (Step.leftFor "a" twoKeys)).2.finished =
        (Selection.onKey "a" twoKeys).results
          ((atRest beginning (.memory [])).submitAll twoKeys).2.finished ∧
      ((atRest beginning (.shared "p:" {})).submitAll (Step.leftFor "b" twoKeys)).2.scene.about "b" =
        ((atRest beginning (.shared "p:" {})).submitAll twoKeys).2.scene.about "b" := by
  have hsteps : ∀ step ∈ twoKeys, step.Plain := by simp [twoKeys, Step.Plain]
  have hmemory : ∀ k, ∃ x, (Store.memory []).lookup k = .ok x := fun k => ⟨none, rfl⟩
  have hshared : ∀ k, ∃ x, (Store.shared "p:" {}).lookup k = .ok x :=
    fun k => ⟨none, Store.lookup_of_history_nil _ rfl⟩
  obtain ⟨hfinished, -, -, -⟩ := keys_independent beginning hmemory hsteps "a"
  obtain ⟨-, habout, -, -⟩ := keys_independent beginning hshared hsteps "b"
  exact ⟨by decide +kernel, hfinished, habout⟩

end Schedule

end KeyedBreaker
