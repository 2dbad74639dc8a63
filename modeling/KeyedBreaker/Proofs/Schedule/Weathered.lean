import KeyedBreaker.Proofs.Breaker.Weathered
import KeyedBreaker.Proofs.Schedule.Sound

namespace KeyedBreaker

open Act

variable {p : Breaker → Prop} {σ σ' : Scene} {st st' : Stand}

namespace Turn

/-- What a turn comes to, whatever faults are met: nothing is stored or logged, or a call begins, a status
is forced, or a call ends. -/
inductive Course (p : Breaker → Prop) (σ : Scene) (st : Stand) (σ' : Scene) : Prop
  | idle : σ'.store = σ.store → σ'.starts = σ.starts → SameLogged σ σ' → Course p σ st σ'
  | calls {b : Breaker} {key : String} {w : Work} {inner : List Step}
      {out : Except Failure Breaker.Stage} : st.place = .acting (.call b key w inner) → p b →
      (b.enterCall key w).play σ = (out, σ') → b.Called key w σ out σ' → Course p σ st σ'
  | forces {b : Breaker} {key : String} {target : Status} {attempt : Nat}
      {out : Except Failure (Status × Record)} {σ₁ : Scene} {rs : List Record}
      {ts : List (Status × Status)} : st.place = .acting (.force b key target attempt) →
      p b ∧ target ≠ .halfOpen → (b.overwriteOnce key target).play σ = (out, σ₁) →
      b.Forced key target σ out rs → σ.Weathers key rs ts σ' →
      (∀ t ∈ ts, t.2 = target) → Course p σ st σ'
  | concludes {f : Frame} {fs : List Frame} {result : Except Failure Json} {rs : List Record}
      {ts : List (Status × Status)} : st.frames = f :: fs →
      (st.place = .working ∧ f.inner = [] ∨ ∃ gate, st.place = .atGate gate) →
      (result = f.result ∨ result = .error .cancellation) →
      f.breaker.Ended σ.now
        (Record.settle f.breaker.config f.opening.status f.opening.record result).1 rs ts →
      σ.Weathers f.key rs ts σ' → Course p σ st σ'

theorem course (h : Turn σ st σ' st') (hst : st.Obeys (Step.ByBreakers p)) : Course p σ st σ' := by
  have hsame : Course p σ st σ := .idle rfl rfl fun _ => rfl
  -- up to its first pause a call does what entering it does, however it comes out
  have hcall : ∀ {b key w inner fs out σ'}, st = ⟨.acting (.call b key w inner), fs⟩ →
      (b.enterCall key w).play σ = (out, σ') → Course p σ st σ' := by
    rintro b key w inner fs out σ' rfl hp
    have hb : Step.Everywhere (Step.ByBreakers p) (.call b key w inner) :=
      hst.operating (.inr (.inr rfl))
    exact .calls rfl hb.self hp (Breaker.called_of_play hp)
  cases h with
  | plays ha =>
      have hclock : ∀ s t, SameStarts s { s with now := t } := fun _ _ => rfl
      have hlaying : ∀ s f, SameStarts s { s with faults := f } := fun _ _ => rfl
      refine .idle (Step.act?_leavesStore ha (hst.starting rfl).self σ) ?_ ?_
      · exact Step.act?_keeps sameStarts_steady.toAccessSteady hclock hlaying ha σ
      · exact Step.act?_keeps sameLogged_steady.toAccessSteady (fun _ _ _ => rfl) (fun _ _ _ => rfl) ha σ
  | opens hp | ends hp | breaks hp => exact hcall rfl hp
  | @forces σ₁ b key target attempt fs previous r hp =>
      obtain ⟨rs, hw, hf⟩ := Breaker.forced_of_play hp
      obtain ⟨told, s₂, hc, hw'⟩ := b.confirm_weathers key target previous σ₁
      rw [hc]
      refine .forces rfl (hst.operating (.inr (.inr rfl))) hp hf (hw.trans hw') fun t ht => ?_
      rw [List.append_nil] at ht
      split at ht
      · cases ht
      · rw [List.mem_singleton.1 ht]
  | @retries σ₁ b key target attempt fs f hp =>
      obtain ⟨rs, hw, hf⟩ := Breaker.forced_of_play hp
      have hw' := hw.trans (b.backOff_weathers key target attempt σ₁)
      exact .forces rfl (hst.operating (.inr (.inr rfl))).self hp hf hw' (by simp)
  | @fails σ₁ b key target attempt fs f hp =>
      obtain ⟨rs, hw, hf⟩ := Breaker.forced_of_play hp
      exact .forces rfl (hst.operating (.inr (.inr rfl))).self hp hf hw (by simp)
  | @concludes _ f fs result hr =>
      obtain ⟨out, s₁, rs, ts, hp, hw, he⟩ := f.breaker.conclude_weathers f.key f.opening result σ
      rw [hp]
      obtain ⟨hplace, hinner, rfl⟩ | ⟨hplace, hr⟩ := hr
      · exact .concludes rfl (.inl ⟨hplace, hinner⟩) (.inl rfl) he hw
      · exact .concludes rfl (.inr hplace) hr he hw
  | resumes => exact .idle rfl rfl fun _ => rfl
  | _ => exact hsame

theorem Course.grows (h : Course p σ st σ') : ∃ k rs, σ.store.Grows k rs σ'.store := by
  cases h with
  | idle hstore => exact ⟨"", [], hstore ▸ .refl⟩
  | calls _ _ _ hc =>
      obtain ⟨-, rs, hg, -⟩ := hc.grows
      exact ⟨_, rs, hg⟩
  | forces _ _ _ _ hw _ => exact ⟨_, _, hw.store⟩
  | concludes _ _ _ _ hw => exact ⟨_, _, hw.store⟩

end Turn

end KeyedBreaker
