import KeyedBreaker.Proofs.Breaker.Call
import KeyedBreaker.Proofs.Breaker.Control

namespace KeyedBreaker.Breaker

variable {b : Breaker} {s s' : Scene} {key : String} {x y : Option Record} {r e : Record}
  {t : Instant} {target status : Status} {P : Record → Prop}

/-- The property is carried on by what a breaker does to a record at a time. -/
structure Carries (b : Breaker) (t : Instant) (P : Record → Prop) : Prop where
  next : ∀ {r}, P r → P r.next
  fresh : ∀ {r}, b.loaded t (.ok none) = .ok r → P r
  changed : ∀ {r target e}, P r → b.change t r = .ok (some (target, e)) → P e
  permitted : ∀ {r key}, P r → P (Record.permit b.config r.status key t r).1
  settled : ∀ {r status} (result : Except Failure Json), P r → r.status = status →
    status.rejects = false → P (Record.settle b.config status r result).1
  forced : ∀ {r target e}, P r → b.forced target t r = .ok e → P e

theorem Carries.and {Q : Record → Prop} (hP : b.Carries t P) (hQ : b.Carries t Q) :
    b.Carries t fun r => P r ∧ Q r where
  next h := ⟨hP.next h.1, hQ.next h.2⟩
  fresh h := ⟨hP.fresh h, hQ.fresh h⟩
  changed h hc := ⟨hP.changed h.1 hc, hQ.changed h.2 hc⟩
  permitted h := ⟨hP.permitted h.1, hQ.permitted h.2⟩
  settled result h hs ha := ⟨hP.settled result h.1 hs ha, hQ.settled result h.2 hs ha⟩
  forced h hf := ⟨hP.forced h.1 hf, hQ.forced h.2 hf⟩

theorem Carries.loaded (hP : b.Carries t P) (h : b.loaded t (.ok x) = .ok r)
    (hx : ∀ r', x = some r' → P r') : P r := by
  cases x with
  | some r' =>
      cases h
      exact hx r rfl
  | none => exact hP.fresh h

theorem Carries.renewed (hP : b.Carries t P) (h : b.renewed t r = .ok e) (hr : P r) : P e := by
  rcases renewed_cases h with ⟨-, rfl⟩ | ⟨target, hc⟩
  · exact hr
  · exact hP.changed hr hc

theorem Carries.admitted {rs : List Record} (hP : b.Carries t P) (h : b.Admitted t x r rs)
    (hx : ∀ r', x = some r' → P r') : P r ∧ ∀ r', rs.head?.or x = some r' → P r' := by
  cases h with
  | loaded hl _ => exact ⟨hP.loaded hl hx, hx⟩
  | changed hl hc =>
      have he := hP.next (hP.changed (hP.loaded hl hx) hc)
      refine ⟨he, fun r' hr' => ?_⟩
      cases hr'
      exact he

theorem Carries.finished {α : Type} {result out : Except Failure α} (hP : b.Carries s.now P)
    (h : Finished b key y r result s out s') (hv : r.version = Record.versionOf y)
    (hy : s.store.lookup key = .ok y) (hr : P r) (hold : ∀ r', y = some r' → P r') {r' : Record}
    (hr' : s'.store.lookup key = .ok (some r')) : P r' := by
  have hsame : s.Leads key [] [] s' → P r' := by
    intro hl
    rw [hl.lookup_eq key, hy] at hr'
    cases hr'
    exact hold r' rfl
  cases h with
  | unrenewed _ hl => exact hsame hl
  | unannounced _ _ _ hl => exact hsame hl
  | persisted hren hp _ =>
      have hl := hp.current ((version_renewed hren).trans hv)
      rw [hl.store.lookup_cons] at hr'
      cases hr'
      exact hP.next (hP.renewed hren hr)

theorem Carries.concluded {o : Opening} {result out : Except Failure Json}
    (hP : b.Carries s.now P) (h : Concluded b key y o result s out s')
    (hv : o.record.version = Record.versionOf y) (hy : s.store.lookup key = .ok y)
    (hs : o.record.status = o.status) (ha : o.status.rejects = false) (ho : P o.record)
    (hold : ∀ r', y = some r' → P r') {r' : Record} (hr' : s'.store.lookup key = .ok (some r')) :
    P r' := by
  cases h with
  | uncounted =>
      rw [hy] at hr'
      cases hr'
      exact hold r' rfl
  | counted h =>
      exact hP.finished h ((Record.version_settle _).trans hv) hy (hP.settled result ho hs ha) hold hr'

theorem Carries.entered {out : Except Failure Stage} (hP : b.Carries s.now P)
    (h : EnteredCall b key x s out s') (hx : s.store.lookup key = .ok x)
    (hold : ∀ r', x = some r' → P r') :
    (∀ r', s'.store.lookup key = .ok (some r') → P r') ∧
      ∀ o, out = .ok (.running o) → P o.record := by
  have hsame : s.Leads key [] [] s' → ∀ r', s'.store.lookup key = .ok (some r') → P r' := by
    intro hl r' hr'
    rw [hl.lookup_eq key, hx] at hr'
    cases hr'
    exact hold r' rfl
  cases h with
  | unbegun h =>
      refine ⟨?_, fun _ ho => by cases ho⟩
      cases h with
      | unloaded _ hl => exact hsame hl
      | unchanged _ _ hl => exact hsame hl
      | unannounced hload hc _ _ hl =>
          intro r' hr'
          rw [hl.store.lookup_cons] at hr'
          cases hr'
          exact hP.next (hP.changed (hP.loaded hload hold) hc)
  | rejected ha hl _ hfin =>
      obtain ⟨hr, hold'⟩ := hP.admitted ha hold
      refine ⟨fun r' hr' => ?_, fun _ ho => absurd ho ended_ne_running⟩
      have hP₁ := hl.now.symm ▸ hP
      exact hP₁.finished hfin (Record.version_permit.trans ha.head.1) (hl.store.lookup hx)
        (hP.permitted hr) hold' hr'
  | failed ha hl hp hstarted hcon =>
      obtain ⟨hr, hold'⟩ := hP.admitted ha hold
      refine ⟨fun r' hr' => ?_, fun _ ho => absurd ho ended_ne_running⟩
      have hcurrent := ha.current (m := s.monotonic) hp
      have hP₂ := ((hstarted.failed _ rfl).2.1.trans hl.now).symm ▸ hP
      refine hP₂.concluded hcon hcurrent.version ?_ hcurrent.recorded hcurrent.admits
        (hP.permitted hr) hold' hr'
      rw [hstarted.store]
      exact hl.store.lookup hx
  | running ha hl hp hstarted =>
      obtain ⟨hr, hold'⟩ := hP.admitted ha hold
      refine ⟨fun r' hr' => ?_, fun o ho => ?_⟩
      · rw [hstarted.store, hl.store.lookup hx] at hr'
        exact hold' r' (Except.ok.inj hr')
      · cases ho
        exact hP.permitted hr

theorem Carries.overwritten {out : Except Failure (Status × Record)} (hP : b.Carries s.now P)
    (h : Overwritten b key target s out s') (hx : s.store.lookup key = .ok x)
    (hold : ∀ r', x = some r' → P r') {r' : Record} (hr' : s'.store.lookup key = .ok (some r')) :
    P r' := by
  cases h with
  | failed _ hl =>
      rw [hl.lookup_eq key, hx] at hr'
      cases hr'
      exact hold r' rfl
  | stored hy hload hf hl =>
      rw [hx] at hy
      cases hy
      rw [hl.store.lookup_cons] at hr'
      cases hr'
      exact hP.next (hP.forced (hP.loaded hload hold) hf)

end KeyedBreaker.Breaker
