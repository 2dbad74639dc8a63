import KeyedBreaker.Proofs.Breaker.Carried
import KeyedBreaker.Proofs.Calendar.Order

namespace KeyedBreaker.Breaker

open Act

variable {b : Breaker} {s s' : Scene} {key : String} {x : Option Record} {r e : Record}
  {t : Instant} {target : Status}

/-- A circuit that turns every call away at this time: it is isolated, or open and its break has not
ended. -/
def Shut (t : Instant) (r : Record) : Prop :=
  r.status = .isolated ∨ r.status = .open ∧ ∃ u, r.closeAt = some u ∧ t.reaches u = .ok false

theorem change_of_shut (h : Shut t r) : b.change t r = .ok none := by
  refine change_of_due_none ?_
  rcases h with h | ⟨h, u, hu, ht⟩
  · rw [h]
    rfl
  · rw [h, Record.due, hu]
    dsimp only
    rw [ht]
    rfl

def reason (key : String) (t : Instant) (r : Record) : Failure :=
  match r.status, r.remaining t with
  | .open, .ok seconds => .circuitOpen key seconds
  | .open, .error err => .time err
  | _, _ => .circuitIsolated key

theorem permit_of_shut {c : Config} (h : Shut t r) :
    Record.permit c r.status key t r = (r, .error (reason key t r)) := by
  unfold reason
  rcases h with h | ⟨h, -⟩ <;> rw [h]
  · rfl
  · rw [Record.permit]
    cases r.remaining t <;> rfl

theorem renewed_of_shut (h : Shut t r) : b.renewed t r = .ok r := by
  rw [renewed, change_of_shut h]
  rfl

theorem Admitted.of_shut {rs : List Record} (ha : b.Admitted t (some r) e rs) (h : Shut t r) :
    r = e ∧ rs = [] := by
  cases ha with
  | loaded hl _ =>
      cases hl
      exact ⟨rfl, rfl⟩
  | changed hl hc =>
      cases hl
      rw [change_of_shut h] at hc
      cases hc

theorem Begun.not_error_of_shut {f : Failure} (hb : Begun b key (some r) s (.error f) s') :
    ¬ Shut s.now r := by
  intro h
  cases hb with
  | unloaded hl _ => cases hl
  | unchanged hl hc _ | unannounced hl hc _ _ _ =>
      cases hl
      rw [change_of_shut h] at hc
      cases hc

theorem Finished.of_shut {α : Type} {result out : Except Failure α}
    (hf : Finished b key (some r) r result s out s') (h : Shut s.now r) :
    s.Leads key [r.next] (tried key [r.next]) s' ∧ b.Yields out result := by
  cases hf with
  | unrenewed hr _ =>
      rw [renewed_of_shut h] at hr
      cases hr
  | unannounced hc _ _ _ =>
      rw [change_of_shut h] at hc
      cases hc
  | persisted hr hp hy =>
      rw [renewed_of_shut h] at hr
      cases hr
      exact ⟨hp.current rfl, hy⟩

/-- A call that meets a shut circuit is turned away. It stores the record as it was, under the next
version. -/
theorem EnteredCall.turned_away {out : Except Failure Stage}
    (h : EnteredCall b key (some r) s out s') (hr : Shut s.now r) :
    s.Leads key [r.next] (tried key [r.next]) s' ∧
      ∃ f, out = .error f ∧ b.Yields (.error f : Except Failure Json) (.error (reason key s.now r)) := by
  cases h with
  | unbegun hb => exact absurd hr hb.not_error_of_shut
  | rejected ha hl hp hf =>
      obtain ⟨rfl, rfl⟩ := ha.of_shut hr
      rw [permit_of_shut hr] at hp hf
      cases hp
      obtain ⟨hl', hy⟩ := hf.of_shut (hl.now ▸ hr)
      refine ⟨hl.trans hl', ?_⟩
      rcases hy with rfl | ⟨g, hg, hb, rfl⟩
      · exact ⟨_, rfl, .inl rfl⟩
      · exact ⟨g, rfl, .inr ⟨g, hg, hb, rfl⟩⟩
  | failed ha _ hp _ _ | running ha _ hp _ =>
      obtain ⟨rfl, rfl⟩ := ha.of_shut hr
      rw [permit_of_shut hr] at hp
      cases hp

end KeyedBreaker.Breaker
