import KeyedBreaker.Proofs.Breaker.Weathered
import KeyedBreaker.Proofs.Calendar.Order
import KeyedBreaker.Proofs.Store.Numbered

namespace KeyedBreaker

def Instant.Advances (u u' : Option Instant) : Prop :=
  ∀ t, u = some t → ∃ t', u' = some t' ∧ t'.reaches t = .ok true

/-- A time, if it is set, was set so many seconds ahead at this instant or before. -/
def Instant.SetBy (seconds : Binary64) (now : Instant) (u : Option Instant) : Prop :=
  ∀ t, u = some t → ∃ t₀ : Instant, now.reaches t₀ = .ok true ∧ t₀.addSeconds seconds = .ok t

namespace Instant

variable {u u' u'' : Option Instant} {seconds : Binary64} {now now' t : Instant}

theorem Advances.refl (u : Option Instant) : Advances u u := fun t h => ⟨t, h, reaches_self t⟩

theorem Advances.trans (h : Advances u u') (h' : Advances u' u'') : Advances u u'' := by
  intro t ht
  obtain ⟨t', ht', hr⟩ := h t ht
  obtain ⟨t'', ht'', hr'⟩ := h' t' ht'
  exact ⟨t'', ht'', reaches_trans hr' hr⟩

theorem setBy_none : SetBy seconds now none := fun _ h => by cases h

theorem setBy_now (h : now.addSeconds seconds = .ok t) : SetBy seconds now (some t) := by
  intro t' ht
  cases ht
  exact ⟨now, reaches_self now, h⟩

theorem SetBy.later (h : SetBy seconds now u) (ht : now'.reaches now = .ok true) :
    SetBy seconds now' u := by
  intro t hu
  obtain ⟨t₀, hr, hadd⟩ := h t hu
  exact ⟨t₀, reaches_trans ht hr, hadd⟩

theorem SetBy.advances (h : SetBy seconds now u) (hadd : now.addSeconds seconds = .ok t) :
    Advances u (some t) := by
  intro t' hu
  obtain ⟨t₀, hr, hadd₀⟩ := h t' hu
  exact ⟨t, rfl, addSeconds_reaches hr hadd₀ hadd⟩

end Instant

namespace Record

structure Onward (r e : Record) : Prop where
  closeAt : Instant.Advances r.closeAt e.closeAt
  resetAt : Instant.Advances r.resetAt e.resetAt

/-- What may be stored on top of a record: its version is the next, and neither time is set back. -/
structure Succeeds (e r : Record) : Prop where
  version : e.version = r.version + 1
  onward : r.Onward e

structure Timed (c : Config) (t : Instant) (r : Record) : Prop where
  closeAt : Instant.SetBy c.breakDuration t r.closeAt
  resetAt : Instant.SetBy c.samplingDuration t r.resetAt

structure Renews (c : Config) (t : Instant) (r e : Record) : Prop where
  version : e.version = r.version
  onward : r.Onward e
  timed : e.Timed c t

variable {c : Config} {t t' : Instant} {r e e' : Record} {target status : Status} {key : String}

theorem Onward.refl (r : Record) : r.Onward r := ⟨.refl _, .refl _⟩

theorem Onward.trans (h : r.Onward e) (h' : e.Onward e') : r.Onward e' :=
  ⟨h.closeAt.trans h'.closeAt, h.resetAt.trans h'.resetAt⟩

theorem Timed.later (h : r.Timed c t) (ht : t'.reaches t = .ok true) : r.Timed c t' :=
  ⟨h.closeAt.later ht, h.resetAt.later ht⟩

theorem timed_fresh (c : Config) (t : Instant) : Timed c t {} := ⟨Instant.setBy_none, Instant.setBy_none⟩

theorem Timed.renews (h : r.Timed c t) : Renews c t r r := ⟨rfl, .refl r, h⟩

theorem Timed.entering (h : r.Timed c t) (he : entering c target t r = .ok e) : Renews c t r e := by
  cases target with
  | closed =>
      obtain ⟨u, hu, he⟩ := exists_of_bind_eq_ok he
      cases he
      exact ⟨rfl, ⟨.refl _, h.resetAt.advances hu⟩, h.closeAt, Instant.setBy_now hu⟩
  | «open» =>
      obtain ⟨u, hu, he⟩ := exists_of_bind_eq_ok he
      cases he
      exact ⟨rfl, ⟨h.closeAt.advances hu, .refl _⟩, Instant.setBy_now hu, h.resetAt⟩
  | halfOpen | isolated =>
      cases he
      exact ⟨rfl, ⟨.refl _, .refl _⟩, h.closeAt, h.resetAt⟩

theorem Timed.permit (h : r.Timed c t) : Renews c t r (permit c status key t r).1 := by
  refine permit_elim (P := Renews c t r) h.renews (fun _ => ?_) fun _ u hu => ?_
  · exact ⟨rfl, ⟨.refl _, .refl _⟩, h.closeAt, h.resetAt⟩
  · exact ⟨rfl, ⟨.refl _, h.resetAt.advances hu⟩, h.closeAt, Instant.setBy_now hu⟩

theorem Timed.settle {α : Type} (h : r.Timed c t) (result : Except Failure α) :
    Renews c t r (settle c status r result).1 := by
  obtain ⟨failures, calls, successes, he⟩ := settle_counters result
  rw [he]
  exact ⟨rfl, ⟨.refl _, .refl _⟩, h.closeAt, h.resetAt⟩

end Record

namespace Scene

/-- The records of every key stand on top of each other as they may, and their times were set by now. -/
def Ascending (c : Config) (s : Scene) : Prop :=
  ∀ key, ∃ rs : List Record, s.store.history key = rs.map some ∧ (∀ r ∈ rs, r.Timed c s.now) ∧
    rs.IsChain Record.Succeeds

/-- A record that may be written under the key: its times are no earlier than those of the record that is
stored, unless that one is of a later version, so that the write will be refused. -/
structure Allows (c : Config) (s : Scene) (key : String) (r : Record) : Prop where
  timed : r.Timed c s.now
  current : ∃ x, s.store.lookup key = .ok x ∧ r.version ≤ Record.versionOf x ∧
    (r.version = Record.versionOf x → ∀ y, x = some y → y.Onward r)

variable {c : Config} {s s' : Scene} {key : String} {rs : List Record} {r e : Record}

theorem Ascending.later (h : s.Ascending c) (hstore : s'.store = s.store)
    (ht : s'.now.reaches s.now = .ok true) : s'.Ascending c := by
  intro key
  obtain ⟨rs, hrs, htimed, hchain⟩ := h key
  exact ⟨rs, hstore ▸ hrs, fun r hr => (htimed r hr).later ht, hchain⟩

theorem Ascending.lookup (h : s.Ascending c) (key : String) :
    ∃ x, s.store.lookup key = .ok x ∧ ∀ r, x = some r → r.Timed c s.now := by
  obtain ⟨rs, hrs, htimed, -⟩ := h key
  cases rs with
  | nil => exact ⟨none, s.store.lookup_of_history_nil hrs, fun _ h => by cases h⟩
  | cons r rs =>
      refine ⟨some r, s.store.lookup_of_history_cons r hrs, fun r' hr => ?_⟩
      cases hr
      exact htimed r List.mem_cons_self

/-- As versions never fall, a record that might be written before may be written after others have
written. -/
theorem Allows.grows {k : String} (h : s.Allows c key r) (hg : s.store.Grows k rs s'.store)
    (ht : s'.now.reaches s.now = .ok true) : s'.Allows c key r := by
  refine ⟨h.timed.later ht, ?_⟩
  obtain ⟨x, hx, hle, honward⟩ := h.current
  by_cases hk : key = k
  · subst hk
    cases rs with
    | nil => exact ⟨x, hg.lookup_nil ▸ hx, hle, honward⟩
    | cons e rs =>
        have hv := hg.versionOf hx hg.lookup_cons
        rw [List.length_cons, Nat.cast_succ] at hv
        exact ⟨some e, hg.lookup_cons, by omega, fun he => by omega⟩
  · exact ⟨x, (hg.lookup_of_ne hk).trans hx, hle, honward⟩

theorem Allows.later (h : s.Allows c key r) (hstore : s'.store = s.store)
    (ht : s'.now.reaches s.now = .ok true) : s'.Allows c key r :=
  ⟨h.timed.later ht, hstore ▸ h.current⟩

theorem Allows.renews (h : s.Allows c key r) (he : Record.Renews c s.now r e) : s.Allows c key e := by
  refine ⟨he.timed, ?_⟩
  obtain ⟨x, hx, hle, honward⟩ := h.current
  rw [he.version.symm] at hle honward
  exact ⟨x, hx, hle, fun hv y hy => (honward hv y hy).trans he.onward⟩

theorem Ascending.keep (h : s.Ascending c) (ha : s.Allows c key e) (hn : s'.now = s.now)
    (hg : s.store.Grows key [e.next] s'.store) : s'.Ascending c ∧ s'.Allows c key e.next := by
  have htimed : e.next.Timed c s'.now := hn ▸ ⟨ha.timed.closeAt, ha.timed.resetAt⟩
  refine ⟨fun other => ?_, htimed, _, hg.lookup_cons, le_rfl, fun _ y hy => ?_⟩
  · obtain ⟨rs, hrs, hold, hchain⟩ := h other
    by_cases hk : other = key
    · subst hk
      refine ⟨e.next :: rs, by rw [hg.history, hrs]; rfl, List.forall_mem_cons.2 ⟨htimed, hn ▸ hold⟩, ?_⟩
      cases rs with
      | nil => exact .singleton _
      | cons r rs =>
          obtain ⟨x, hx, -, honward⟩ := ha.current
          obtain ⟨y, hy, hv⟩ := hg.single
          rw [s.store.lookup_of_history_cons r hrs] at hx hy
          cases hx
          cases hy
          have hr := honward hv r rfl
          exact .cons_cons ⟨congrArg (· + 1) hv, hr.closeAt, hr.resetAt⟩ hchain
    · exact ⟨rs, (hg.history_of_ne hk).trans hrs, hn ▸ hold, hchain⟩
  · cases hy
    exact .refl _

end Scene

namespace Breaker

variable {b : Breaker} {s s' s₁ : Scene} {key : String} {rs : List Record} {r e : Record} {t : Instant}

theorem renews_of_enter {target : Status} (hr : r.Timed b.config t) (h : b.enter target t r = .ok e) :
    Record.Renews b.config t r e := by
  unfold enter at h
  cases he : Record.entering b.config target t r with
  | error f => rw [he] at h; cases h
  | ok entered =>
      rw [he] at h
      cases h
      have hren := hr.entering he
      exact ⟨hren.version, ⟨hren.onward.closeAt, hren.onward.resetAt⟩, hren.timed.closeAt,
        hren.timed.resetAt⟩

theorem renews_of_renewed (hr : r.Timed b.config t) (h : b.renewed t r = .ok e) :
    Record.Renews b.config t r e := by
  rcases renewed_cases h with ⟨-, rfl⟩ | ⟨target, hc⟩
  · exact hr.renews
  · exact renews_of_enter hr (change_eq_some hc).2

theorem renews_of_forced {target : Status} (hr : r.Timed b.config t)
    (h : b.forced target t r = .ok e) : Record.Renews b.config t r e := by
  unfold forced at h
  cases he : b.enter target t r with
  | error f => rw [he] at h; cases h
  | ok entered =>
      rw [he] at h
      cases h
      have hren := renews_of_enter hr he
      split
      · exact ⟨hren.version, ⟨hren.onward.closeAt, hren.onward.resetAt⟩, hren.timed.closeAt,
          hren.timed.resetAt⟩
      · exact hren

theorem allows_of_loaded {x : Option Record} (hs : s.Ascending b.config)
    (hx : s.store.lookup key = .ok x) (h : b.loaded s.now (.ok x) = .ok r) :
    s.Allows b.config key r := by
  obtain ⟨x', hx', htimed⟩ := hs.lookup key
  obtain rfl : x' = x := Except.ok.inj (hx'.symm.trans hx)
  have hv := versionOf_loaded h
  refine ⟨?_, x', hx, hv.le, fun _ y hy => ?_⟩
  · cases x' with
    | some y =>
        cases h
        exact htimed _ rfl
    | none =>
        unfold loaded at h
        cases he : Record.entering b.config .closed s.now {} with
        | error err => rw [he] at h; cases h
        | ok fresh =>
            rw [he] at h
            cases h
            exact ((Record.timed_fresh _ _).entering he).timed
  · subst hy
    cases h
    exact .refl _

theorem Saved.ascending {e' : Record} (h : Saved e (.ok e') rs) (hs : s.Ascending b.config)
    (ha : s.Allows b.config key e) (hn : s'.now = s.now) (hg : s.store.Grows key rs s'.store) :
    s'.Ascending b.config ∧ s'.Allows b.config key e' := by
  cases h with
  | kept => exact hs.keep ha hn hg
  | dropped =>
      have ht : s'.now.reaches s.now = .ok true := hn ▸ Instant.reaches_self _
      exact ⟨hs.later hg.lookup_nil ht, ha.grows hg ht⟩

theorem Advanced.ascending {out : Except Failure Record} {ts : List (Status × Status)}
    (h : Advanced b s.now r out rs ts) (hs : s.Ascending b.config) (ha : s.Allows b.config key r)
    (hn : s'.now = s.now) (hg : s.store.Grows key rs s'.store) :
    s'.Ascending b.config ∧ ∀ e, out = .ok e → s'.Allows b.config key e := by
  have hstill : rs = [] → s'.Ascending b.config ∧ s'.Allows b.config key r := by
    rintro rfl
    exact Saved.dropped.ascending hs ha hn hg
  have hmoved : ∀ {target e e'}, b.change s.now r = .ok (some (target, e)) → Saved e (.ok e') rs →
      s'.Ascending b.config ∧ s'.Allows b.config key e' := fun hc hsaved =>
    hsaved.ascending hs (ha.renews (renews_of_enter ha.timed (change_eq_some hc).2)) hn hg
  cases h with
  | failed => exact ⟨(hstill rfl).1, fun _ he => by cases he⟩
  | still =>
      refine ⟨(hstill rfl).1, fun e he => ?_⟩
      cases he
      exact (hstill rfl).2
  | moved hc hsaved =>
      refine ⟨(hmoved hc hsaved).1, fun e he => ?_⟩
      cases he
      exact (hmoved hc hsaved).2
  | interrupted hc hsaved => exact ⟨(hmoved hc hsaved).1, fun _ he => by cases he⟩

theorem Ended.ascending {ts : List (Status × Status)} (h : Ended b s.now r rs ts)
    (hs : s.Ascending b.config) (ha : s.Allows b.config key r) (hn : s'.now = s.now)
    (hg : s.store.Grows key rs s'.store) : s'.Ascending b.config := by
  cases h with
  | dropped => exact hs.later hg.lookup_nil (hn ▸ Instant.reaches_self _)
  | kept hren _ => exact (hs.keep (ha.renews (renews_of_renewed ha.timed hren)) hn hg).1

theorem Opened.ascending {out : Except Failure (Opening × Except Failure Unit)}
    {ts : List (Status × Status)} (h : Opened b key s out rs ts) (hs : s.Ascending b.config)
    (hw : s.Weathers key rs ts s') : s'.Ascending b.config ∧
      ∀ o permitted, out = .ok (o, permitted) → s'.Allows b.config key o.record := by
  cases h with
  | unloaded =>
      exact ⟨hs.later hw.store.lookup_nil (hw.now ▸ Instant.reaches_self _), fun _ _ ho => by cases ho⟩
  | unadvanced hx hl hadv =>
      exact ⟨(hadv.ascending hs (allows_of_loaded hs hx hl) hw.now hw.store).1,
        fun _ _ ho => by cases ho⟩
  | opened hx hl hadv =>
      obtain ⟨hs', ha⟩ := hadv.ascending hs (allows_of_loaded hs hx hl) hw.now hw.store
      refine ⟨hs', fun o permitted ho => ?_⟩
      cases ho
      have ha := ha _ rfl
      exact ha.renews (hw.now ▸ ha.timed.permit)

theorem Forced.ascending {target : Status} {out : Except Failure (Status × Record)}
    (h : Forced b key target s out rs) (hs : s.Ascending b.config) (hn : s'.now = s.now)
    (hg : s.store.Grows key rs s'.store) : s'.Ascending b.config := by
  cases h with
  | failed => exact hs.later hg.lookup_nil (hn ▸ Instant.reaches_self _)
  | kept hx hl he =>
      have ha := allows_of_loaded hs hx hl
      exact (hs.keep (ha.renews (renews_of_forced ha.timed he)) hn hg).1

/-- Up to its first pause a call keeps the order, and what it keeps for its second part may be written. The
clock may move on when the function starts. -/
theorem Called.ascending {w : Work} {out : Except Failure Stage} (h : Called b key w s out s')
    (hs : s.Ascending b.config) (ht : s'.now.reaches s.now = .ok true) :
    s'.Ascending b.config ∧ ∀ o, out = .ok (.running o) → s'.Allows b.config key o.record := by
  cases h with
  | unbegun ho hw => exact ⟨(ho.ascending hs hw).1, fun _ he => by cases he⟩
  | rejected ho hw hended hw' =>
      obtain ⟨hs₁, ha⟩ := ho.ascending hs hw
      exact ⟨(hw.now ▸ hended).ascending hs₁ (ha _ _ rfl) hw'.now hw'.store,
        fun _ he => absurd he ended_ne_running⟩
  | @failed _ f _ _ _ _ s₁ s₂ _ _ ho hw _ hstarted _ hended hw' =>
      obtain ⟨hs₁, ha⟩ := ho.ascending hs hw
      have hn : s₂.now = s₁.now := (hstarted.failed f rfl).2.1
      have ht₂ : s₂.now.reaches s₁.now = .ok true := hn ▸ Instant.reaches_self _
      have ha₂ := (ha _ _ rfl).later hstarted.store ht₂
      rw [show s.now = s₂.now from (hn.trans hw.now).symm] at hended
      have hs₂ := hs₁.later hstarted.store ht₂
      exact ⟨hended.ascending hs₂ (ha₂.renews (ha₂.timed.settle _)) hw'.now hw'.store,
        fun _ he => absurd he ended_ne_running⟩
  | @running o _ _ s₁ _ ho hw hstarted _ =>
      obtain ⟨hs₁, ha⟩ := ho.ascending hs hw
      have ht' : s'.now.reaches s₁.now = .ok true := hw.now ▸ ht
      refine ⟨hs₁.later hstarted.store ht', fun o' he => ?_⟩
      cases he
      exact (ha _ _ rfl).later hstarted.store ht'

end Breaker

end KeyedBreaker
