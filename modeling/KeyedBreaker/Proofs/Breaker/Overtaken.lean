import KeyedBreaker.Proofs.Record.Counted

namespace KeyedBreaker

namespace Record

variable {α : Type} {c : Config} {status : Status} {r : Record}

theorem windowExpired_settle (result : Except Failure α) (t : Instant) :
    (settle c status r result).1.windowExpired t = r.windowExpired t := by
  obtain ⟨failures, calls, successes, h⟩ := settle_counters result
  rw [h]
  rfl

end Record

namespace Breaker

variable {b : Breaker} {s s' : Scene} {key : String} {x : Option Record} {r : Record} {o : Opening}
  {result out : Except Failure Json}

theorem InRange.settle {t : Instant} (h : b.InRange t r) (status : Status)
    (result : Except Failure Json) : b.InRange t (Record.settle b.config status r result).1 where
  window hs := by
    rw [Record.windowExpired_settle]
    exact h.window ((Record.status_settle result).symm.trans hs)
  breakEnd := h.breakEnd
  windowEnd := h.windowEnd

/-- An overtaken call whose function gave a value or failed ordinarily tries one write, which meets
the conflict; the conflict is noted once, and the outcome is that of the function. -/
theorem Concluded.overtaken (h : Concluded b key x o result s out s')
    (hv : o.record.version ≠ Record.versionOf x) (hcounted : o.record.Counted)
    (hrecorded : o.record.status = o.status) (hadmits : o.status.rejects = false)
    (hordinary : ∀ f, result = .error f → f.isOrdinary = true)
    (hcounts : ∀ f, result = .error f → ∃ counted, b.config.counts f = .ok counted)
    (hb : b.Polite) (ht : b.InRange s.now o.record) :
    out = result ∧ s.Leads key [] [b.conflictNotice key o.record.version (Record.versionOf x),
      .storeWrite key o.record.version] s' := by
  have hresult : (Record.settle b.config o.status o.record result).2 = result :=
    Record.settle_result fun f hf _ => hcounts f hf
  obtain ⟨e, hren⟩ := (ht.settle o.status result).renewed (hcounted.settle result)
    (by rw [Record.status_settle, hrecorded]; exact hadmits)
  have hversion : (Record.settle b.config o.status o.record result).1.version = o.record.version :=
    Record.version_settle result
  cases h with
  | uncounted hf hn =>
      rw [hresult] at hf
      rw [hordinary _ hf] at hn
      cases hn
  | counted h =>
      cases h with
      | unrenewed hf => rw [hren] at hf; cases hf
      | unannounced _ _ hn => exact absurd hb hn
      | persisted hr hp hy =>
          have hev := (version_renewed hr).trans hversion
          have hl := hp.stale (hev.trans_ne hv)
          rw [hev] at hl
          exact ⟨(hy.of_polite hb).trans hresult, hl⟩

end Breaker

end KeyedBreaker
