import KeyedBreaker.Proofs.Binary64.Nonnegative
import KeyedBreaker.Proofs.Breaker.Account
import KeyedBreaker.Proofs.Breaker.Audience
import KeyedBreaker.Proofs.Schedule.Deeds

namespace KeyedBreaker

def Step.Courteous : Step → Prop
  | .call b .. | .force b .. => b.Polite
  | _ => True

/-- The breaker and the key of the call that a task has asked for and that did not begin yet, or else of
the innermost one whose function is running, if it is its turn to go on. -/
def Stand.call? (st : Stand) : Option (Breaker × String) :=
  match st.place, st.frames with
  | .starting (.call b key ..), _ => some (b, key)
  | .requesting (.call b key ..), _ | .queued (.call b key ..), _ | .acting (.call b key ..), _ =>
    some (b, key)
  | .working, f :: _ | .atGate _, f :: _ => some (f.breaker, f.key)
  | _, _ => none

/-- A call that has ended. -/
structure Account where
  breaker : Breaker
  key : String
  /-- What its function came to, if it started. -/
  function? : Option (Except Failure Json)
  answer : Except Failure Json
  /-- What listeners were told of it, if they were. -/
  told? : Option Occurrence
  /-- The monotonic clock at the beginning and at the end. -/
  began : Binary64
  ended : Binary64
  /-- The wall clock at the end. -/
  time : Instant

namespace Account

def elapsed (a : Account) : Binary64 := (a.ended - a.began).max Binary64.zero

def tellings (a : Account) : List Event := a.breaker.tellingsOf a.told?

def Own (a : Account) (f : Failure) : Prop :=
  ∀ g, a.function? = some (.error g) → g ≠ f ∧ a.breaker.config.counts g ≠ .error f

/-- Which calls listeners are told of, and how those came out. -/
structure Fair (a : Account) : Prop where
  returned : ∀ v, a.answer = .ok v →
    a.function? = some (.ok v) ∧ a.told? = some (.succeeded a.key a.elapsed)
  /-- A call that raises what its function did, if the classifier has judged that. -/
  raised : ∀ f counted, a.function? = some (.error f) → a.answer = .error f → f.isOrdinary = true →
    a.breaker.config.counts f = .ok counted →
    a.told? = some (.failed a.key f a.elapsed) ∨ a.breaker.Stuck a.time f
  rejected : ∀ (r : Record) f, a.function? = none → r.Rejects a.key f → a.answer = .error f →
    a.told? = some (.rejected a.key r.status)
  unsaved : ∀ f, a.answer = .error f → a.Own f →
    f.isA .store = true ∨ (∃ called written, f = Breaker.bothFailed a.key called written) → a.told? = none
  aborted : ∀ f, a.answer = .error f → f.isOrdinary = false → a.told? = none
  /-- What listeners are told is right. -/
  told : ∀ o, a.told? = some o → a.breaker.Verdict a.key a.time a.elapsed a.function? a.answer o
  elapsed : a.began.isFinite = true → a.ended.isFinite = true →
    Binary64.zero ≤ a.elapsed ∧ (a.ended < a.began → a.elapsed = Binary64.zero) ∧
      (a.began ≤ a.ended → a.elapsed = a.ended - a.began)

theorem fair {a : Account}
    (h : a.breaker.Accounts a.key a.time a.elapsed a.function? a.answer a.told?) : a.Fair where
  returned v hv := (hv ▸ h).told_of_ok
  raised f counted hf hanswer hordinary hcounts := by
    rw [hf, hanswer] at h
    exact h.told_of_raised hordinary hcounts
  rejected r f hnone hrejects hanswer := by
    rw [hnone, hanswer] at h
    exact h.told_of_rejects hrejects
  unsaved f hanswer hown hf := (hanswer ▸ h).untold_of_own hown hf
  aborted f hanswer hf := (hanswer ▸ h).untold_of_aborted hf
  told o ho := (ho ▸ h).verdict
  elapsed hbegan hended := Binary64.max_zero_sub hended hbegan

end Account

open Act

namespace Turn

inductive EndsCall (σ : Scene) (st : Stand) (σ' : Scene) (st' : Stand) : Prop
  | cancelled {b : Breaker} {key : String} : st.call? = some (b, key) →
      st'.place = .returning (.error .cancellation) → σ' = σ → EndsCall σ st σ' st'
  | entered {b : Breaker} {key : String} {w : Work} {inner : List Step} {fs : List Frame}
      {out : Except Failure Breaker.Stage} : b.Polite → st = ⟨.acting (.call b key w inner), fs⟩ →
      (b.enterCall key w).play σ = (out, σ') → (∀ o, out ≠ .ok (.running o)) →
      (∀ answer : Except Failure Json, out = answer.map .ended →
        st'.place = .returning (answer.map .value)) → EndsCall σ st σ' st'
  | concluded {p : Place} {f : Frame} {fs : List Frame} : st = ⟨p, f :: fs⟩ →
      p = .working ∨ (∃ gate, p = .atGate gate) → (∃ result, st'.place = .returning result) →
      EndsCall σ st σ' st'

variable {σ σ' : Scene} {st st' : Stand}

/-- In a turn a call ends, or nobody is told how one came out. -/
theorem endsCall_or_untold (h : Turn σ st σ' st') (hst : st.Obeys Step.Courteous) :
    EndsCall σ st σ' st' ∨
      (st.call? = none ∨ ∀ result, st'.place ≠ .returning result) ∧ Untold σ σ' := by
  have hA := untold_steady.toAccessSteady
  have hpolite : ∀ {b key w inner fs}, st = ⟨.acting (.call b key w inner), fs⟩ → b.Polite := by
    rintro b key w inner fs rfl
    exact (hst.operating (.inr (.inr rfl))).self
  cases h with
  | asks | waits | enters | wakes | nests | pauses | finishes =>
      exact .inr ⟨.inr fun _ h => (by cases h), untold_steady.refl σ⟩
  | @plays step a fs ha =>
      refine .inr ⟨.inl ?_, Step.act?_keeps hA (fun _ _ => untold_of_events rfl)
        (fun _ _ => untold_of_events rfl) ha σ⟩
      cases step <;> first | rfl | cases ha
  | @signals step fs result hcancelled =>
      cases step with
      | call b key w inner =>
          have hcall : (⟨.starting (.call b key w inner), fs⟩ : Stand).call? = some (b, key) := rfl
          refine .inl (.cancelled hcall ?_ rfl)
          rw [hcancelled rfl]
      | _ => exact .inr ⟨.inl rfl, untold_steady.refl σ⟩
  | @leaves op fs =>
      cases op with
      | call b key w inner =>
          have hcall : (⟨.queued (.call b key w inner), fs⟩ : Stand).call? = some (b, key) := rfl
          exact .inl (.cancelled hcall rfl rfl)
      | force b key target attempt => exact .inr ⟨.inl rfl, untold_steady.refl σ⟩
  | opens hp => exact .inr ⟨.inr fun _ h => (by cases h), Breaker.untold_of_running hp⟩
  | ends hp =>
      refine .inl (.entered (hpolite rfl) rfl hp (fun o ho => by cases ho) fun answer hanswer => ?_)
      cases answer <;> cases hanswer
      rfl
  | breaks hp =>
      refine .inl (.entered (hpolite rfl) rfl hp (fun o ho => by cases ho) fun answer hanswer => ?_)
      cases answer <;> cases hanswer
      rfl
  | @forces σ₁ b key target attempt fs previous r hp =>
      have huntold := b.keeps_overwriteOnce key hA target σ
      rw [hp] at huntold
      exact .inr ⟨.inl rfl, huntold.trans (b.confirm_untold key target previous σ₁)⟩
  | @retries σ₁ b key target attempt fs f hp =>
      have huntold := b.keeps_overwriteOnce key hA target σ
      rw [hp] at huntold
      refine .inr ⟨.inl rfl, huntold.trans ?_⟩
      exact (untold_seeing σ₁ rfl).trans (untold_seeing _ rfl)
  | @fails _ b key target attempt fs f hp =>
      have huntold := b.keeps_overwriteOnce key hA target σ
      rw [hp] at huntold
      exact .inr ⟨.inl rfl, huntold⟩
  | concludes hends =>
      refine .inl (.concluded rfl ?_ ⟨_, rfl⟩)
      exact hends.imp (·.1) (·.1)
  | resumes => exact .inr ⟨.inl rfl, untold_seeing σ rfl⟩

end Turn

namespace Schedule

structure CallEnds (s : Schedule) (i : Nat) (b : Breaker) (key : String) (answer : Except Failure Json) :
    Prop where
  head : s.ready.head? = some i
  calls : s.stands[i]?.bind Stand.call? = some (b, key)
  returns : s.tick.stands[i]?.map (·.place) = some (.returning (answer.map .value))

/-- How far the function of a call came that ends in the next turn, and when the call began. -/
inductive Ran (s : Schedule) (ms : List Move) (i : Nat) (a : Account) : Prop
  | never : a.function? = none → (s.after ms).tick.scene.starts = (s.after ms).scene.starts →
      a.began = (s.after ms).scene.monotonic → Ran s ms i a
  /-- The function fails as it starts. -/
  | failed {w : Work} {inner : List Step} {fs : List Frame} {f : Failure} :
      (s.after ms).stands[i]? = some ⟨.acting (.call a.breaker a.key w inner), fs⟩ →
      ((w.start a.key).play ((a.breaker.begin a.key).play (s.after ms).scene).2).1 = .error f →
      (s.after ms).tick.scene.starts = a.key :: (s.after ms).scene.starts →
      a.function? = some (.error f) → a.began = (s.after ms).scene.monotonic → Ran s ms i a
  /-- The function has been running since an earlier turn. -/
  | ended {before later : List Move} {f : Frame} {w : Work} {result : Except Failure Json} :
      (s.after ms).ending? = some (i, f, result) → f.breaker = a.breaker → f.key = a.key →
      ms = before ++ .turn :: later → (s.after before).Opens i f w →
      a.function? = some result → a.began = (s.after before).scene.monotonic → Ran s ms i a

structure Settles (s : Schedule) (ms : List Move) (i : Nat) (a : Account) : Prop where
  ends : (s.after ms).CallEnds i a.breaker a.key a.answer
  ran : s.Ran ms i a
  ended : a.ended = (s.after ms).scene.monotonic
  time : a.time = (s.after ms).scene.now
  accounts : a.breaker.Accounts a.key a.time a.elapsed a.function? a.answer a.told?
  tells : a.breaker.Tells a.told? (s.after ms).scene (s.after ms).tick.scene

/-- The accounts of the calls that have ended in a run, latest first. Nobody is told how a call came out
in any other turn. -/
inductive Accounted (s : Schedule) : List Move → List Account → Prop
  | start : Accounted s [] []
  | submits {ms : List Move} {as : List Account} {step : Step} : Accounted s ms as →
      Accounted s (ms ++ [.submit step]) as
  | passes {ms : List Move} {as : List Account} : Accounted s ms as →
      (∀ i b key answer, ¬ (s.after ms).CallEnds i b key answer) →
      Untold (s.after ms).scene (s.after ms).tick.scene → Accounted s (ms ++ [.turn]) as
  | settles {ms : List Move} {as : List Account} {i : Nat} {a : Account} : Accounted s ms as →
      s.Settles ms i a → Accounted s (ms ++ [.turn]) (a :: as)

variable {s : Schedule} {ms : List Move} {as : List Account} {i : Nat} {st st' : Stand}
  {b : Breaker} {key : String}

theorem Opens.opening {f : Frame} {w : Work} (h : s.Opens i f w) :
    f.opening.started = s.scene.monotonic ∧ f.opening.status.rejects = false := by
  obtain ⟨σ, hbegin, -⟩ := Breaker.begin_of_running h.plays
  obtain ⟨-, -, r, -, ho, hpermit⟩ := Breaker.opening_of_begin hbegin
  rw [ho]
  exact ⟨rfl, Record.rejects_of_permit hpermit.symm⟩

section

variable (hi : (s.after ms).ready.head? = some i) (hst : (s.after ms).stands[i]? = some st)
  (hstands : (s.after ms).tick.stands = (s.after ms).stands.set i st')

include hst hstands in
theorem place_of_turn : (s.after ms).tick.stands[i]?.map (·.place) = some st'.place := by
  rw [hstands, List.getElem?_set_self (List.getElem?_eq_some_iff.1 hst).1]
  rfl

include hi hst hstands

theorem not_callEnds (h : st.call? = none ∨ ∀ result, st'.place ≠ .returning result) (j : Nat)
    (b : Breaker) (key : String) (answer : Except Failure Json) :
    ¬ (s.after ms).CallEnds j b key answer := by
  rintro ⟨hhead, hcalls, hreturns⟩
  rw [hi] at hhead
  cases hhead
  rw [place_of_turn hst hstands] at hreturns
  rw [hst] at hcalls
  rcases h with h | h
  · rw [Option.bind_some, h] at hcalls
    cases hcalls
  · exact h _ (Option.some.inj hreturns)

theorem callEnds_of_turn {answer : Except Failure Json} (hcall : st.call? = some (b, key))
    (hplace : st'.place = .returning (answer.map .value)) : (s.after ms).CallEnds i b key answer :=
  ⟨hi, by rw [hst]; exact hcall, by rw [place_of_turn hst hstands, hplace]⟩

theorem settles_of_cancelled (hcall : st.call? = some (b, key))
    (hplace : st'.place = .returning (.error .cancellation))
    (hscene : (s.after ms).tick.scene = (s.after ms).scene) : ∃ a, s.Settles ms i a := by
  let σ := (s.after ms).scene
  refine ⟨⟨b, key, none, .error .cancellation, none, σ.monotonic, σ.monotonic, σ.now⟩,
    callEnds_of_turn hi hst hstands hcall hplace, .never rfl (by rw [hscene]) rfl, rfl, rfl,
    .hindered (.aborted rfl), ?_⟩
  rw [hscene]
  exact Breaker.tells_of_untold (untold_steady.refl _)

theorem settles_of_entered {w : Work} {inner : List Step} {fs : List Frame}
    {out : Except Failure Breaker.Stage} (hb : b.Polite)
    (hplace : st = ⟨.acting (.call b key w inner), fs⟩)
    (hplay : (b.enterCall key w).play (s.after ms).scene = (out, (s.after ms).tick.scene))
    (hout : ∀ o, out ≠ .ok (.running o))
    (hreturns : ∀ answer : Except Failure Json, out = answer.map .ended →
      st'.place = .returning (answer.map .value)) : ∃ a, s.Settles ms i a := by
  obtain ⟨function?, answer, told?, hanswer, hstarted, haccounts, htells⟩ :=
    Breaker.enterCall_accounts hb hplay hout
  let σ := (s.after ms).scene
  have hcall : st.call? = some (b, key) := by rw [hplace]; rfl
  refine ⟨⟨b, key, function?, answer, told?, σ.monotonic, σ.monotonic, σ.now⟩,
    callEnds_of_turn hi hst hstands hcall (hreturns answer hanswer), ?_, rfl, rfl, haccounts, htells⟩
  cases hstarted with
  | never hstarts => exact .never rfl hstarts rfl
  | failed hstart hstarts => exact .failed (hplace ▸ hst) hstart hstarts rfl rfl

theorem settles_of_concluded (htasks : s.tasks = [])
    (hsteps : ∀ step, .submit step ∈ ms → step.Everywhere Step.Courteous) {p : Place} {f : Frame}
    {fs : List Frame} (hplace : st = ⟨p, f :: fs⟩) (hp : p = .working ∨ ∃ gate, p = .atGate gate)
    (hreturns : ∃ result, st'.place = .returning result) : ∃ a, s.Settles ms i a := by
  subst hplace
  obtain ⟨before, later, w, hms, hopens⟩ := exists_opens htasks hst List.mem_cons_self
  obtain ⟨inner, gs, hacting⟩ := hopens.acting
  have hb : f.breaker.Polite := by
    have hbefore : ∀ step, .submit step ∈ before → step.Everywhere Step.Courteous :=
      fun step hs => hsteps step (hms ▸ List.mem_append_left _ hs)
    have hobeys := obeys_after htasks hbefore _ (List.mem_of_getElem? hacting)
    exact (hobeys.operating (.inr (.inr rfl))).self
  obtain ⟨hstarted, hadmits⟩ := hopens.opening
  obtain ⟨result, hend⟩ : ∃ result, (s.after ms).ending? = some (i, f, result) := by
    obtain ⟨result, hresult⟩ := hreturns
    exact ending?_of_returns hi hst hp ⟨result, by rw [place_of_turn hst hstands, hresult]⟩
  obtain ⟨-, -, s', -, -, -, hscene', hstands', htick⟩ := conclude_of_ending hend
  obtain ⟨hscene, hconcluded⟩ := conclude_seen (hstands' ▸ hst) result
  rw [← htick, hscene'] at hscene
  rw [← htick, hscene'] at hconcluded
  rcases hplay : (f.breaker.conclude f.key f.opening result).play (s.after ms).scene with ⟨answer, σ⟩
  rw [hplay] at hscene hconcluded
  obtain ⟨told?, haccounts, htells⟩ := Breaker.conclude_accounts hb hadmits hplay
  rw [hstarted] at haccounts
  have hcall : (⟨p, f :: fs⟩ : Stand).call? = some (f.breaker, f.key) := by
    obtain rfl | ⟨gate, rfl⟩ := hp <;> rfl
  refine ⟨⟨f.breaker, f.key, some result, answer, told?, (s.after before).scene.monotonic,
    (s.after ms).scene.monotonic, (s.after ms).scene.now⟩, ?_, .ended hend rfl rfl hms hopens rfl rfl,
    rfl, rfl, haccounts, ?_⟩
  · exact callEnds_of_turn hi hst (hconcluded.trans (by rw [hstands'])) hcall rfl
  · rw [hscene]
    exact htells

end

/-- In a turn a call ends and is accounted for, or no call ends and nobody is told how one came out. -/
theorem settles_or_untold (htasks : s.tasks = [])
    (hsteps : ∀ step, .submit step ∈ ms → step.Everywhere Step.Courteous) :
    (∃ i a, s.Settles ms i a) ∨ (∀ i b key answer, ¬ (s.after ms).CallEnds i b key answer) ∧
      Untold (s.after ms).scene (s.after ms).tick.scene := by
  rcases (s.after ms).tick_moves with ⟨hscene, hstands, hidle⟩ | ⟨i, st, hi, hst, st', hturn, hstands⟩
  · refine .inr ⟨?_, untold_of_events (by rw [hscene])⟩
    rintro i b key answer ⟨hhead, hcalls, -⟩
    obtain ⟨st, hst, hcall⟩ := Option.bind_eq_some_iff.1 hcalls
    cases hidle i st hhead hst <;> cases hcall
  · have hobeys : st.Obeys Step.Courteous :=
      obeys_after htasks hsteps st (List.mem_of_getElem? hst)
    rcases hturn.endsCall_or_untold hobeys with hends | ⟨hgoesOn, huntold⟩
    · refine .inl ⟨i, ?_⟩
      cases hends with
      | cancelled hcall hplace hscene => exact settles_of_cancelled hi hst hstands hcall hplace hscene
      | entered hb hplace hplay hout hreturns =>
          exact settles_of_entered hi hst hstands hb hplace hplay hout hreturns
      | concluded hplace hp hreturns =>
          exact settles_of_concluded hi hst hstands htasks hsteps hplace hp hreturns
    · exact .inr ⟨not_callEnds hi hst hstands hgoesOn, huntold⟩

theorem exists_accounted (htasks : s.tasks = [])
    (hsteps : ∀ step, .submit step ∈ ms → step.Everywhere Step.Courteous) : ∃ as, s.Accounted ms as := by
  induction ms using List.reverseRecOn with
  | nil => exact ⟨[], .start⟩
  | append_singleton ms m ih =>
      have hbefore : ∀ step, .submit step ∈ ms → step.Everywhere Step.Courteous :=
        fun step hs => hsteps step (List.mem_append_left _ hs)
      obtain ⟨as, has⟩ := ih hbefore
      cases m with
      | submit step => exact ⟨as, .submits has⟩
      | turn =>
          obtain ⟨i, a, ha⟩ | ⟨hends, huntold⟩ := settles_or_untold htasks hbefore
          · exact ⟨a :: as, .settles has ha⟩
          · exact ⟨as, .passes has hends huntold⟩

theorem Accounted.verdicts (h : s.Accounted ms as) :
    (s.after ms).scene.verdicts = as.flatMap Account.tellings ++ s.scene.verdicts := by
  induction h with
  | start => rfl
  | submits _ ih =>
      rw [after_concat]
      exact ih
  | passes _ _ huntold ih =>
      rw [after_concat, ← ih]
      exact huntold.sameVerdicts
  | settles _ ha ih =>
      rw [after_concat, List.flatMap_cons, List.append_assoc, ← ih]
      exact ha.tells.verdicts

theorem Accounted.fair (h : s.Accounted ms as) : ∀ a ∈ as, a.Fair := by
  induction h with
  | start => exact fun a ha => by cases ha
  | submits _ ih | passes _ _ _ ih => exact ih
  | settles _ hsettles ih => exact List.forall_mem_cons.2 ⟨Account.fair hsettles.accounts, ih⟩

/-- Every call that ends is told to every listener of its breaker once, or to none of them: it is told if
it returned, raised what its function did or was turned away, and not if the store failed it or it was
cancelled or aborted. Nothing else is told of calls, and what is told is right. -/
theorem calls_accounted (htasks : s.tasks = [])
    (hsteps : ∀ step, .submit step ∈ ms → step.Everywhere Step.Courteous) :
    ∃ as, s.Accounted ms as ∧ (∀ a ∈ as, a.Fair) ∧
      (s.after ms).scene.verdicts = as.flatMap Account.tellings ++ s.scene.verdicts := by
  obtain ⟨as, has⟩ := exists_accounted htasks hsteps
  exact ⟨as, has, has.fair, has.verdicts⟩

def heeded : Breaker where
  listeners := [.recording (some (.plain .value none)) Hook.all, .logging]

/-- Of three calls on one key the first returns, the second raises, and the third is turned away, as the
circuit was isolated before it. The call on another key is cancelled while its function waits. -/
def variedCalls : List Move :=
  [Move.submit (.call heeded "k" {} []),
    Move.submit (.call heeded "k" { result := .error (.plain .lookup none) } []),
    Move.submit (.force heeded "k" .isolated), Move.submit (.call heeded "k" {} []),
    Move.submit (.call heeded "j" { gate := some "g" } [])] ++ List.replicate 22 Move.turn ++
  [Move.submit (.cancel 4)] ++ List.replicate 6 Move.turn

def toldFirst (s : Scene) : List (Hook × String × Option FailureClass) :=
  (s.verdicts.reverse.filterMap (Event.heardBy? 0 0)).map fun o =>
    (o.hook, o.key, match o with | .failed _ f _ => some f.cls | _ => none)

theorem calls_accounted_of_variedCalls :
    ((atRest beginning (.memory [])).after variedCalls).scene.starts = ["j", "k", "k"] ∧
      toldFirst ((atRest beginning (.memory [])).after variedCalls).scene =
        [(.succeeded, "k", none), (.failed, "k", some .lookup), (.rejected, "k", none)] ∧
      ∃ as, (atRest beginning (.memory [])).Accounted variedCalls as ∧ (∀ a ∈ as, a.Fair) ∧
        ((atRest beginning (.memory [])).after variedCalls).scene.verdicts =
          as.flatMap Account.tellings ++ (atRest beginning (.memory [])).scene.verdicts := by
  have hpolite : heeded.Polite := List.forall_mem_cons.2
    ⟨Listener.polite_recording _ (by rintro f ⟨⟩; rfl), List.forall_mem_singleton.2 trivial⟩
  have hsteps : ∀ step, .submit step ∈ variedCalls → step.Everywhere Step.Courteous := by
    simp [variedCalls, Step.Everywhere, Step.EverywhereIn, Step.Courteous, hpolite]
  exact ⟨by decide +kernel, by decide +kernel, calls_accounted rfl hsteps⟩

def heardCall (config : Config) (w : Work) : List Move :=
  Move.submit (.call { config, listeners := [.recording none []] } "k" w []) :: List.replicate 5 Move.turn

def misjudgedCall : Schedule :=
  (atRest beginning (.memory [])).after
    (heardCall { classifier := some (.raising (.plain .runtime none)) }
      { result := .error (.plain .value none) })

def lastSeconds : Instant := ⟨315537897580000000, some .zero, by decide⟩

def callAfterWindow : Schedule :=
  (atRest lastSeconds (.memory [])).after
    (heardCall {} {} ++ [Move.submit (.advance (Binary64.ofInt 15)), Move.turn, Move.turn] ++
      heardCall {} {})

/-- Listeners hear of the failure of the rule where the function failed in another way, and of a failed
call where no function was started and the circuit was closed. -/
theorem calls_told_otherwise :
    misjudgedCall.scene.starts = ["k"] ∧
      toldFirst misjudgedCall.scene = [(.failed, "k", some .runtime)] ∧
      callAfterWindow.scene.starts = ["k"] ∧
      toldFirst callAfterWindow.scene = [(.succeeded, "k", none), (.failed, "k", some .overflow)] := by
  decide +kernel

end Schedule

end KeyedBreaker
