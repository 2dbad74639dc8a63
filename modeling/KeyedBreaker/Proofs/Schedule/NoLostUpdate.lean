import KeyedBreaker.Proofs.Breaker.Overtaken
import KeyedBreaker.Proofs.Schedule.Faultless
import KeyedBreaker.Proofs.Store.Numbered

namespace KeyedBreaker

open Act

namespace Operation

def breaker : Operation → Breaker
  | .call b .. | .force b .. => b

end Operation

namespace Schedule

/-- The call was opened by a turn of the run, in which it read or wrote the record that the store held
for its key at the end of that turn. -/
def Opened (s : Schedule) (ms : List Move) (i : Nat) (f : Frame) : Prop :=
  ∃ before later w inner fs, ms = before ++ .turn :: later ∧
    (s.after before).ready.head? = some i ∧
    (s.after before).stands[i]? = some ⟨.acting (.call f.breaker f.key w inner), fs⟩ ∧
    (f.breaker.enterCall f.key w).play (s.after before).scene =
      (.ok (.running f.opening), (s.after before).tick.scene) ∧
    f.opening.record.version = ((s.after before).tick.scene.store.history f.key).length

/-- The next turn stores nothing under a key, or stores records there one over the other, each by the
first write that is tried. The first of them is stored over one that the operation knows: it reads it
in that turn, or has kept it while its function was running, and then stores one record only. -/
def WritesOnTop (key : String) (s : Schedule) : Prop :=
  s.tick.scene.store.history key = s.scene.store.history key ∨
    ∃ i st rs, s.ready.head? = some i ∧ s.stands[i]? = some st ∧
      s.tick.scene.store.history key = rs.map some ++ s.scene.store.history key ∧
      s.tick.scene.tries = tried key rs ++ s.scene.tries ∧
      ((∃ op r σ, st.place = .acting op ∧ op.key = key ∧
          (op.breaker.load key).play s.scene = (.ok r, σ) ∧
          r.version = (s.scene.store.history key).length) ∨
        ∃ f fs, st.frames = f :: fs ∧ f.key = key ∧ rs.length = 1 ∧
          f.opening.record.version = (s.scene.store.history key).length)

def ending? (s : Schedule) : Option (Nat × Frame × Except Failure Json) := do
  let i ← s.ready.head?
  let t ← s.tasks[i]?
  match t.place, t.frames with
  | .working, f :: _ =>
    if f.inner.isEmpty && f.gate.all fun gate => (s.gates gate).isOpen then some (i, f, f.result)
    else none
  | .atGate gate, f :: _ =>
    if t.cancelRequested || Waiter.isCancelled i (s.gates gate).queue then
      some (i, f, .error .cancellation)
    else some (i, f, f.result)
  | _, _ => none

/-- The next turn drops the update of a call that ends, with one notice of the versions in conflict,
and the call gives what its function gave. -/
def DropsUpdate (s : Schedule) (i : Nat) (f : Frame) (result : Except Failure Json) : Prop :=
  s.tick.scene.tries =
      f.breaker.conflictNotice f.key f.opening.record.version
          (s.scene.store.history f.key).length ::
        .storeWrite f.key f.opening.record.version :: s.scene.tries ∧
    s.tick.stands[i]?.map (·.place) = some (.returning (result.map .value))

variable {s : Schedule} {i : Nat} {f : Frame} {result : Except Failure Json} {ms : List Move}

theorem conclude_of_ending (h : s.ending? = some (i, f, result)) :
    ∃ (p : Place) (fs : List Frame) (s' : Schedule), s.ready.head? = some i ∧
      (p = .working ∨ ∃ gate, p = .atGate gate) ∧ s.stands[i]? = some ⟨p, f :: fs⟩ ∧
      s'.scene = s.scene ∧ s'.stands = s.stands ∧ s.tick = s'.conclude i f result := by
  unfold ending? at h
  obtain ⟨j, hj, h⟩ := Option.bind_eq_some_iff.1 h
  obtain ⟨t, ht, h⟩ := Option.bind_eq_some_iff.1 h
  have hstand := stands_of_task ht
  have htick := tick_eq_proceed hj ht
  obtain ⟨place, frames, flag⟩ := t
  cases place with
  | working =>
      cases frames with
      | nil => cases h
      | cons g fs =>
          dsimp only at h
          split at h
          · rename_i hopen
            cases h
            obtain ⟨hinner, hgate⟩ := Bool.and_eq_true_iff.1 hopen
            refine ⟨_, fs, s, hj, .inl rfl, hstand, rfl, rfl, ?_⟩
            rw [htick]
            unfold proceed work
            dsimp only
            rw [List.isEmpty_iff.1 hinner]
            cases hg : f.gate with
            | none => rfl
            | some gate =>
                rw [hg] at hgate
                exact if_pos hgate
          · cases h
  | atGate gate =>
      cases frames with
      | nil => cases h
      | cons g fs =>
          dsimp only at h
          have hleft : s.tick = s.leaveGate ⟨.atGate gate, g :: fs, flag⟩ j g gate := htick
          unfold leaveGate at hleft
          dsimp only at hleft
          split at h <;> rename_i hc <;> cases h
          · rw [if_pos hc] at hleft
            refine ⟨_, fs, (s.setGate gate ((s.gates gate).leave i)).modifyTask i fun t =>
              { t with cancelRequested := false }, hj, .inr ⟨gate, rfl⟩, hstand, rfl, ?_, hleft⟩
            exact stands_modifyTask_self fun _ => rfl
          · rw [if_neg hc] at hleft
            exact ⟨_, fs, s.setGate gate ((s.gates gate).leave i), hj, .inr ⟨gate, rfl⟩, hstand,
              rfl, rfl, hleft⟩
  | _ => cases h

structure Orderly (s : Schedule) : Prop where
  grounded : s.Grounded fun _ => True
  numbered : ∀ key, Store.Numbered (s.scene.store.history key)
  counted : ∀ key r, s.scene.store.lookup key = .ok (some r) → r.Counted
  openings : ∀ st ∈ s.stands, ∀ f ∈ st.frames, f.opening.record.Counted

theorem Orderly.submit (h : s.Orderly) {step : Step}
    (hstep : step.Everywhere (Step.Undisturbed fun _ => True)) : (s.add step).Orderly := by
  refine ⟨h.grounded.move (m := .submit step) (fun _ hm => by cases hm; exact hstep), h.numbered,
    h.counted, fun st hst => ?_⟩
  rw [stands_add] at hst
  rcases List.mem_append.1 hst with hst | hst
  · exact h.openings st hst
  · rw [List.mem_singleton.1 hst]
    exact fun _ hf => absurd hf List.not_mem_nil

theorem Orderly.tick (h : s.Orderly) : s.tick.Orderly := by
  have hground : s.tick.Grounded fun _ => True := h.grounded.move (m := .turn) nofun
  rcases s.tick_moves with ⟨hscene, hstands, -⟩ | ⟨i, st, -, hst, st', hturn, hstands⟩
  · refine ⟨hground, ?_, ?_, ?_⟩
    · rw [hscene]; exact h.numbered
    · rw [hscene]; exact h.counted
    · rw [hstands]; exact h.openings
  · have hmem := List.mem_of_getElem? hst
    have hq := h.grounded.scene
    have hstand := h.grounded.stands st hmem
    obtain ⟨-, key, rs, hg⟩ := hturn.grows hq hstand
    have hcarries : ∀ b : Breaker, True → b.Carries s.scene.now Record.Counted :=
      fun b _ => b.counted_carries _
    refine ⟨hground, hg.numbered_all h.numbered, fun k r hr => ?_, fun st₁ hst₁ f' hf' => ?_⟩
    · obtain ⟨x, hx, -⟩ := (h.numbered k).lookup
      exact (hturn.effect hq hstand).carried hstand hcarries (h.openings st hmem) hx
        (fun r' hr' => h.counted k r' (hr' ▸ hx)) hr
    · rw [hstands] at hst₁
      rcases List.mem_or_eq_of_mem_set hst₁ with hst₁ | rfl
      · exact h.openings st₁ hst₁ f' hf'
      · rcases hturn.mem_frames hf' with ⟨f, hf, inner, rfl⟩ | ⟨b, k, w, inner, o, -, hp, rfl⟩
        · exact h.openings st hmem f hf
        · obtain ⟨x, hx, -⟩ := (h.numbered k).lookup
          exact ((hcarries b trivial).entered (Breaker.entered_of_play hq hx hp) hx
            (fun r' hr' => h.counted k r' (hr' ▸ hx))).2 o rfl

theorem Orderly.after (h : s.Orderly)
    (hsteps : ∀ step, .submit step ∈ ms → step.Everywhere (Step.Undisturbed fun _ => True)) :
    (s.after ms).Orderly := by
  refine after_induction (fun s m h hm => ?_) h hsteps
  cases m with
  | submit step => exact h.submit (hm step rfl)
  | turn => exact h.tick

theorem orderly_of_no_tasks (htasks : s.tasks = []) (hq : s.scene.Quiet)
    (hempty : s.scene.store.writes = []) : s.Orderly := by
  have hnil := Store.history_of_writes_nil hempty
  refine ⟨grounded_of_no_tasks htasks hq, fun key => ?_, fun key r hr => ?_, fun st hst => ?_⟩
  · rw [hnil]
    trivial
  · rw [Store.lookup_of_history_nil _ (hnil key)] at hr
    cases hr
  · rw [stands, htasks] at hst
    exact absurd hst List.not_mem_nil

theorem Orderly.opened (h : s.Orderly) (htasks : s.tasks = [])
    (hsteps : ∀ step, .submit step ∈ ms → step.Everywhere (Step.Undisturbed fun _ => True))
    {st : Stand} (hst : (s.after ms).stands[i]? = some st) (hf : f ∈ st.frames) :
    s.Opened ms i f := by
  obtain ⟨before, later, w, rfl, hopens⟩ := exists_opens htasks hst hf
  obtain ⟨inner, fs, hacting⟩ := hopens.acting
  refine ⟨before, later, w, inner, fs, rfl, hopens.head, hacting, hopens.plays, ?_⟩
  -- a call that is opened knows what the store holds at the end of the turn
  have hbefore : (s.after before).Orderly :=
    h.after fun step hs => hsteps step (List.mem_append_left _ hs)
  obtain ⟨x, hx, -⟩ := (hbefore.numbered f.key).lookup
  obtain ⟨-, rs, hg, ho⟩ := (Breaker.entered_of_play hbefore.grounded.scene hx hopens.plays).gains
  exact (ho f.opening rfl).version.trans
    ((hbefore.tick.numbered f.key).versionOf (hg.store.lookup hx))

theorem Orderly.loads (h : s.Orderly) {key : String} {x : Option Record} {r : Record}
    (b : Breaker) (hx : s.scene.store.lookup key = .ok x)
    (hr : b.loaded s.scene.now (.ok x) = .ok r) :
    ∃ σ, (b.load key).play s.scene = (.ok r, σ) ∧
      r.version = (s.scene.store.history key).length := by
  obtain ⟨σ, hp, -⟩ := b.load_leads h.grounded.scene key
  rw [hx, hr] at hp
  exact ⟨σ, hp, (Breaker.versionOf_loaded hr).trans ((h.numbered key).versionOf hx)⟩

theorem Orderly.writesOnTop (h : s.Orderly) (key : String) : s.WritesOnTop key := by
  rcases s.tick_moves with ⟨hscene, -, -⟩ | ⟨i, st, hi, hst, st', hturn, -⟩
  · exact .inl (by rw [hscene])
  · have hq := h.grounded.scene
    have hstand := h.grounded.stands st (List.mem_of_getElem? hst)
    have heffect := hturn.effect hq hstand
    generalize hσ : s.tick.scene = σ' at heffect
    unfold WritesOnTop
    rw [hσ]
    cases heffect with
    | idle hidle => exact .inl (by rw [hidle.store])
    | @calls b k w inner x out hp _ hx he =>
        obtain ⟨-, rs, hg, -⟩ := he.gains
        by_cases hk : key = k
        · subst hk
          rcases he.loads with hstore | ⟨r, hr⟩
          · exact .inl (by rw [hstore])
          · obtain ⟨σ, hload, hv⟩ := h.loads b hx hr
            exact .inr ⟨i, st, rs, hi, hst, hg.store.history, hg.tries,
              .inl ⟨_, r, σ, hp, rfl, hload, hv⟩⟩
        · exact .inl (hg.store.history_of_ne hk)
    | @forces b k target attempt out σ₁ hp _ _ ho hl =>
        have hstore : σ'.store = σ₁.store := hl.store.lookup_nil
        by_cases hk : key = k
        · subst hk
          cases ho with
          | failed _ hl₁ => exact .inl (by rw [hstore, hl₁.store.lookup_nil])
          | @stored x r e _ hx hr _ hl₁ =>
              obtain ⟨σ, hload, hv⟩ := h.loads b hx hr
              refine .inr ⟨i, st, [e.next], hi, hst, ?_, ?_, .inl ⟨_, r, σ, hp, rfl, hload, hv⟩⟩
              · rw [hstore]
                exact hl₁.store.history
              · rw [hl.tries]
                exact hl₁.tries
        · obtain ⟨-, rs, hg⟩ := ho.gains
          exact .inl (by rw [hstore, hg.store.history_of_ne hk])
    | @concludes f fs x result out hfs hx hc =>
        by_cases hv : f.opening.record.version = Record.versionOf x
        · obtain ⟨-, rs, hg, hlen⟩ := hc.gains hv
          by_cases hk : key = f.key
          · subst hk
            rcases Nat.lt_or_ge 0 rs.length with hpos | hnil
            · exact .inr ⟨i, st, rs, hi, hst, hg.store.history, hg.tries,
                .inr ⟨f, fs, hfs, rfl, Nat.le_antisymm hlen hpos,
                  hv.trans ((h.numbered f.key).versionOf hx)⟩⟩
            · rw [List.length_eq_zero_iff.1 (Nat.le_zero.1 hnil)] at hg
              exact .inl hg.store.history
          · exact .inl (hg.store.history_of_ne hk)
        · obtain ⟨-, -, hstore⟩ := hc.idle_of_stale hv
          exact .inl (by rw [hstore])

/-- A call that was overtaken stores nothing when it ends. Where the classifier has an answer, listeners
raise ordinary failures only, and times are in range, it drops its update with one notice and gives
what its function gave, if that is a value or an ordinary failure. -/
theorem Orderly.overtaken (h : s.Orderly) (hend : s.ending? = some (i, f, result))
    (hv : f.opening.record.version ≠ (s.scene.store.history f.key).length) :
    s.tick.scene.store = s.scene.store ∧
      ((∀ g, result = .error g → g.isOrdinary = true) →
        (∀ g, result = .error g → ∃ counted, f.breaker.config.counts g = .ok counted) →
        f.breaker.Polite → f.breaker.InRange s.scene.now f.opening.record →
        s.DropsUpdate i f result) := by
  obtain ⟨p, fs, s', -, -, hst, hscene, hstands, htick⟩ := conclude_of_ending hend
  have hstand := h.grounded.stands _ (List.mem_of_getElem? hst)
  have hf : f ∈ (⟨p, f :: fs⟩ : Stand).frames := List.mem_cons_self
  obtain ⟨x, hx, -⟩ := (h.numbered f.key).lookup
  have hlatest := (h.numbered f.key).versionOf hx
  rw [← hlatest] at hv
  obtain ⟨hσ, hstands'⟩ := conclude_seen (hstands ▸ hst) result
  rw [← htick, hscene] at hσ hstands'
  generalize hp : (f.breaker.conclude f.key f.opening result).play s.scene = out at hσ hstands'
  have hconcluded := Breaker.concluded_of_play h.grounded.scene hx hp
  refine ⟨?_, fun hordinary hcounts hb ht => ?_⟩
  · rw [hσ]
    exact (hconcluded.idle_of_stale hv).2.2
  · obtain ⟨hout, hl⟩ := hconcluded.overtaken hv (h.openings _ (List.mem_of_getElem? hst) f hf)
      (hstand.frames f hf).recorded (hstand.frames f hf).admits hordinary hcounts hb ht
    refine ⟨?_, ?_⟩
    · rw [hσ, hl.tries, hlatest]
      rfl
    · rw [hstands', hstands, List.getElem?_set_self (List.getElem?_eq_some_iff.1 hst).1, hout]
      rfl

/-- Breakers over a store that starts empty and meets no faults lose no update, however their calls and
administrative steps interleave: the versions stored under a key have no gaps, every record is stored
by somebody who knows the one before it, and a call that was overtaken while its function was running
stores nothing, notes the conflict once, and gives what its function gave. -/
theorem no_lost_update (htasks : s.tasks = []) (hq : s.scene.Quiet)
    (hempty : s.scene.store.writes = [])
    (hsteps : ∀ step, .submit step ∈ ms → step.Everywhere (Step.Undisturbed fun _ => True)) :
    (∀ key, ((s.after ms).scene.store.history key).reverse.map (·.map Record.version) =
        (List.range ((s.after ms).scene.store.history key).length).map
          fun n : Nat => some ((n : Int) + 1)) ∧
      (∀ key, (s.after ms).WritesOnTop key) ∧
      (∀ i st f, (s.after ms).stands[i]? = some st → f ∈ st.frames → s.Opened ms i f) ∧
      ∀ i f result, (s.after ms).ending? = some (i, f, result) →
        f.opening.record.version ≠ ((s.after ms).scene.store.history f.key).length →
        (s.after ms).tick.scene.store = (s.after ms).scene.store ∧
          ((∀ g, result = .error g → g.isOrdinary = true) →
            (∀ g, result = .error g → ∃ counted, f.breaker.config.counts g = .ok counted) →
            f.breaker.Polite → f.breaker.InRange (s.after ms).scene.now f.opening.record →
            (s.after ms).DropsUpdate i f result) := by
  have hstart := orderly_of_no_tasks htasks hq hempty
  have horderly := hstart.after hsteps
  exact ⟨fun key => (horderly.numbered key).versions, horderly.writesOnTop,
    fun i st f hst hf => hstart.opened htasks hsteps hst hf,
    fun i f result hend hv => horderly.overtaken hend hv⟩

def overtaking (b : Breaker) (w : Work) : List Move :=
  [.submit (.call b "k" { w with gate := some "g" } [])] ++ List.replicate 4 .turn ++
    [.submit (.force {} "k" .isolated)] ++ List.replicate 4 .turn ++
    [.submit (.release "g")] ++ List.replicate 2 .turn

def sharedStart : Schedule := atRest beginning (.shared "" {})

def overtakenCall (b : Breaker) (w : Work) : Schedule := sharedStart.after (overtaking b w)

theorem overtakenCall_dropsUpdate :
    ∃ f v, (overtakenCall {} {}).ending? = some (0, f, .ok v) ∧
      (overtakenCall {} {}).DropsUpdate 0 f (.ok v) := by
  have hend : ∃ p, (overtakenCall {} {}).ending? = some p :=
    Option.isSome_iff_exists.1 (by decide +kernel)
  have hall : ∀ p ∈ (overtakenCall {} {}).ending?, p.1 = 0 ∧ p.2.2.isOk = true ∧
      p.2.1.opening.record.version ≠
        ((overtakenCall {} {}).scene.store.history p.2.1.key).length ∧
      p.2.1.breaker.listeners.isEmpty = true ∧
      p.2.1.opening.record.windowExpired (overtakenCall {} {}).scene.now = .ok false ∧
      (overtakenCall {} {}).scene.now.addSeconds p.2.1.breaker.config.breakDuration =
        .ok ⟨5000000, none, by decide⟩ ∧
      (overtakenCall {} {}).scene.now.addSeconds p.2.1.breaker.config.samplingDuration =
        .ok ⟨10000000, none, by decide⟩ := by decide +kernel
  obtain ⟨⟨i, f, result⟩, hend⟩ := hend
  obtain ⟨rfl, hok, hv, hlisteners, hwindow, hbreak, hsampling⟩ := hall _ hend
  cases result with
  | error g => cases hok
  | ok v =>
      have hpolite : f.breaker.Polite := by
        rw [Breaker.Polite, List.isEmpty_iff.1 hlisteners]
        exact fun _ hl => absurd hl List.not_mem_nil
      have hsteps : ∀ step, .submit step ∈ overtaking {} {} →
          step.Everywhere (Step.Undisturbed fun _ => True) := by
        simp [overtaking, Step.Everywhere, Step.EverywhereIn, Step.Undisturbed, Step.ByBreakers,
          Step.Faultless]
      have hstart : sharedStart.scene.store.writes = [] := rfl
      rw [overtakenCall] at hend hv hwindow hbreak hsampling ⊢
      have hdrops := (no_lost_update rfl (fun _ => rfl) hstart hsteps).2.2.2 0 f (.ok v) hend hv
      exact ⟨f, v, hend, hdrops.2 (fun _ h => by cases h) (fun _ h => by cases h) hpolite
        ⟨fun _ => ⟨_, hwindow⟩, ⟨_, hbreak⟩, ⟨_, hsampling⟩⟩⟩

def failingClassifier : Breaker where
  config := { classifier := some (.raising (.plain .value none)) }

def reclassifiedCall : Schedule :=
  overtakenCall failingClassifier { result := .error (.plain .lookup none) }

def endingClass? (s : Schedule) : Option FailureClass :=
  s.ending?.bind fun p =>
    match p.2.2 with
    | .ok _ => none
    | .error g => some g.cls

/-- The failure of a classifier replaces the failure of the function of an overtaken call. -/
theorem overtakenCall_reclassified :
    reclassifiedCall.endingClass? = some .lookup ∧
      (reclassifiedCall.ending?.map fun p => p.2.1.opening.record.version) = some 0 ∧
      (reclassifiedCall.scene.store.history "k").length = 1 ∧
      (reclassifiedCall.tick.stands[0]?.bind Stand.failureClass?) = some .value := by
  decide +kernel

end Schedule

end KeyedBreaker
