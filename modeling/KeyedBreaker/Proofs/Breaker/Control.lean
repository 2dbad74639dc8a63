import KeyedBreaker.Breaker.Control
import KeyedBreaker.Proofs.Breaker.Basic

namespace KeyedBreaker.Breaker

open Act

variable {b : Breaker} {s : Scene} {key : String} {x : Option Record} {r e : Record}
  {target : Status} {t : Instant}

def forced (b : Breaker) (target : Status) (t : Instant) (r : Record) : Except TimeError Record :=
  (b.enter target t r).map fun e =>
    if r.status = target then { e with previousStatus := r.previousStatus } else e

theorem forced_eq_ok (h : b.forced target t r = .ok e) :
    ∃ entered, Record.Entered b.config target t r entered ∧
      e = { entered with
        previousStatus := if r.status = target then r.previousStatus else some r.status } := by
  unfold forced at h
  cases he : b.enter target t r with
  | error f => rw [he] at h; cases h
  | ok e' =>
      obtain ⟨entered, hent, rfl⟩ := enter_eq_ok he
      rw [he] at h
      cases h
      refine ⟨entered, hent, ?_⟩
      dsimp only
      split <;> rfl

theorem version_forced (h : b.forced target t r = .ok e) : e.version = r.version := by
  obtain ⟨entered, hent, rfl⟩ := forced_eq_ok h
  exact hent.version

theorem play_overwriteOnce {s₁ : Scene} (h : (b.load key).play s = (.ok r, s₁)) :
    (b.overwriteOnce key target).play s =
      match b.forced target s₁.now r with
      | .error err => (.error (.time err), s₁)
      | .ok e => ((fun stored => (r.status, stored)) <$> write key e).play s₁ := by
  rw [overwriteOnce, play_bind_ok s h, play_bind_ok s₁ (play_now s₁), forced]
  cases he : b.enter target s₁.now r with
  | error err => exact play_bind_error s₁ (play_ofTime s₁ (.error err)) _
  | ok e =>
      rw [play_bind_ok s₁ (play_ofTime s₁ (.ok e))]
      rfl

inductive Overwritten (b : Breaker) (key : String) (target : Status) (s : Scene) :
    Except Failure (Status × Record) → Scene → Prop
  | failed {f : Failure} {s' : Scene} : f.isA .stale = false → s.Leads key [] [] s' →
      Overwritten b key target s (.error f) s'
  | stored {x : Option Record} {r e : Record} {s' : Scene} : s.store.lookup key = .ok x →
      b.loaded s.now (.ok x) = .ok r → b.forced target s.now r = .ok e →
      s.Leads key [e.next] (tried key [e.next]) s' →
      Overwritten b key target s (.ok (r.status, e.next)) s'

theorem isA_stale_time (err : TimeError) : (Failure.time err).isA .stale = false := by
  cases err <;> rfl

theorem isA_stale_of_loaded {f : Failure} (h : b.loaded t (s.store.lookup key) = .error f) :
    f.isA .stale = false := by
  cases hx : s.store.lookup key with
  | error g =>
      rw [hx] at h
      cases h
      cases hs : s.store with
      | memory writes => rw [hs] at hx; cases hx
      | shared keyPrefix client =>
          rw [hs, Store.lookup_shared] at hx
          unfold Store.answer at hx
          split at hx
          · cases hx
          · split at hx
            · cases hx
            · cases hx
              rfl
  | ok x =>
      rw [hx] at h
      cases x with
      | some r => cases h
      | none =>
          unfold loaded at h
          cases he : Record.entering b.config .closed t {} with
          | ok r => rw [he] at h; cases h
          | error err =>
              rw [he] at h
              cases h
              exact isA_stale_time err

theorem overwriteOnce_overwritten (b : Breaker) (key : String) (target : Status) (hq : s.Quiet) :
    ∃ out s', (b.overwriteOnce key target).play s = (out, s') ∧
      Overwritten b key target s out s' := by
  obtain ⟨s₁, hload, hl₁⟩ := b.load_leads hq key
  cases hr : b.loaded s.now (s.store.lookup key) with
  | error f =>
      rw [hr] at hload
      exact ⟨.error f, s₁, play_bind_error s hload _, .failed (isA_stale_of_loaded hr) hl₁⟩
  | ok r =>
      rw [hr] at hload
      rw [play_overwriteOnce hload, hl₁.now]
      cases he : b.forced target s.now r with
      | error err => exact ⟨_, s₁, rfl, .failed (isA_stale_time err) hl₁⟩
      | ok e =>
          cases hx : s.store.lookup key with
          | error f => rw [hx] at hr; cases hr
          | ok x =>
              rw [hx] at hr
              have hv := (version_forced he).trans (versionOf_loaded hr)
              obtain ⟨s₂, hw, hl₂⟩ := write_leads (hl₁.quiet hq) ((hl₁.lookup_eq key).trans hx) hv
              have hl := hl₁.trans hl₂
              rw [List.append_nil] at hl
              refine ⟨.ok (r.status, e.next), s₂, ?_, .stored hx hr he hl⟩
              dsimp only
              rw [play_map, hw]
              rfl

theorem overwritten_of_play {out : Except Failure (Status × Record)} {s' : Scene} (hq : s.Quiet)
    (h : (b.overwriteOnce key target).play s = (out, s')) : Overwritten b key target s out s' := by
  obtain ⟨out', s₁, hp, ho⟩ := b.overwriteOnce_overwritten key target hq
  rw [h] at hp
  cases hp
  exact ho

theorem Overwritten.gains {out : Except Failure (Status × Record)} {s' : Scene}
    (h : Overwritten b key target s out s') : s'.starts = s.starts ∧ ∃ rs, s.Gains key rs s' := by
  cases h with
  | failed _ hl => exact ⟨hl.starts, [], hl.gains⟩
  | stored _ _ _ hl => exact ⟨hl.starts, _, hl.gains⟩

theorem confirm_leads (b : Breaker) (key : String) (target previous : Status) (s : Scene) :
    ∃ out s', (b.confirm key target previous).play s = (out, s') ∧ b.Yields out (.ok ()) ∧
      s.Leads key [] [] s' := by
  unfold confirm
  split
  · exact ⟨.ok (), s, rfl, .inl rfl, .refl key s⟩
  · obtain ⟨out, es, hu, hes, hy⟩ := b.announce_utters key previous target
    exact ⟨out, _, hu s, hy, .seeing hes key s⟩

end KeyedBreaker.Breaker
