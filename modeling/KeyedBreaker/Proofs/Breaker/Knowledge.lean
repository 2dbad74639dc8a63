import KeyedBreaker.Proofs.Breaker.Break
import KeyedBreaker.Proofs.Breaker.Stride

namespace KeyedBreaker

namespace Record

def closeAtOf (x : Option Record) : Option Instant := x.bind (·.closeAt)

variable {α : Type} {c : Config} {status : Status} {t : Instant} {r : Record} {key : String}

theorem closeAt_permit : (permit c status key t r).1.closeAt = r.closeAt :=
  permit_elim (P := fun e => e.closeAt = r.closeAt) rfl (fun _ => rfl) fun _ _ _ => rfl

theorem closeAt_settle (result : Except Failure α) :
    (settle c status r result).1.closeAt = r.closeAt := by
  obtain ⟨failures, calls, successes, h⟩ := settle_counters result
  rw [h]

end Record

namespace Breaker

open Record

variable {b : Breaker} {c : Config} {key : String} {x : Option Record} {r e : Record} {t t' : Instant}
  {target : Status}

structure Reflects (x : Option Record) (r : Record) : Prop where
  status : statusOf x = r.status
  closeAt : r.status.rejects = true → closeAtOf x = r.closeAt

/-- A record that may be stored over another: a break that it has was there before or began by now,
and a break that was there before has ended or stays. -/
structure Succeeds (c : Config) (t : Instant) (x : Option Record) (e : Record) : Prop where
  opened : e.status = .open → statusOf x = .open ∧ closeAtOf x = e.closeAt ∨
    ∃ t₀ u, t₀.addSeconds c.breakDuration = .ok u ∧ e.closeAt = some u ∧ t.reaches t₀ = .ok true
  shut : (statusOf x).rejects = true → e.status.rejects = true ∧ e.closeAt = closeAtOf x ∨
    ∀ u, closeAtOf x = some u → t.reaches u = .ok true

theorem reflects_some (r : Record) : Reflects (some r) r := ⟨rfl, fun _ => rfl⟩

theorem reflects_of_loaded (h : b.loaded t (.ok x) = .ok r) : Reflects x r := by
  refine ⟨(status_loaded h).symm, fun hr => ?_⟩
  obtain rfl | ⟨rfl, hent⟩ := loaded_cases h
  · rfl
  · rw [hent.status] at hr
    cases hr

theorem Reflects.permit (h : Reflects x r) : Reflects x (permit c r.status key t r).1 :=
  ⟨h.status.trans status_permit.symm, fun hr =>
    (h.closeAt (status_permit ▸ hr)).trans closeAt_permit.symm⟩

theorem Reflects.settle {α : Type} {status : Status} (h : Reflects x r)
    (result : Except Failure α) : Reflects x (settle c status r result).1 :=
  ⟨h.status.trans (status_settle result).symm,
    fun hr => (h.closeAt (status_settle (c := c) result ▸ hr)).trans (closeAt_settle result).symm⟩

theorem Reflects.succeeds (h : Reflects x r) : Succeeds c t x r where
  opened hr := .inl ⟨h.status.trans hr, h.closeAt (hr ▸ rfl)⟩
  shut hx := .inl ⟨h.status ▸ hx, (h.closeAt (h.status ▸ hx)).symm⟩

/-- A circuit that turns calls away makes a transition only when its break has ended. -/
theorem reaches_of_change (h : b.change t r = .ok (some (target, e)))
    (hr : r.status.rejects = true) {u : Instant} (hu : r.closeAt = some u) :
    t.reaches u = .ok true := by
  have hdue := (change_eq_some h).1
  cases hs : r.status with
  | «open» =>
      rw [hs, due, hu] at hdue
      obtain ⟨passed, hpassed, hif⟩ := exists_of_bind_eq_ok hdue
      cases hreach : t.reaches u with
      | error err => rw [hreach] at hpassed; cases hpassed
      | ok passed' =>
          rw [hreach] at hpassed
          cases hpassed
          cases passed with
          | true => rfl
          | false => cases hif
  | isolated => rw [hs] at hdue; cases hdue
  | closed | halfOpen => rw [hs] at hr; cases hr

theorem Reflects.succeeds_of_change (h : Reflects x r)
    (hc : b.change t r = .ok (some (target, e))) : Succeeds b.config t x e where
  opened he := by
    obtain ⟨entered, hent, rfl⟩ := enter_eq_ok (change_eq_some hc).2
    obtain ⟨u, ht, hu⟩ := hent.breakEnds (hent.status.symm.trans he)
    exact .inr ⟨t, u, ht, hu, Instant.reaches_self t⟩
  shut hx := by
    have hr : r.status.rejects = true := h.status ▸ hx
    exact .inr fun u hu => reaches_of_change hc hr ((h.closeAt hr).symm.trans hu)

theorem Succeeds.later (h : Succeeds c t x e) (ht : t'.reaches t = .ok true) :
    Succeeds c t' x e where
  opened he := (h.opened he).imp id fun ⟨t₀, u, hu, hclose, ht₀⟩ =>
    ⟨t₀, u, hu, hclose, Instant.reaches_trans ht ht₀⟩
  shut hx := (h.shut hx).imp id fun hu u hclose => Instant.reaches_trans ht (hu u hclose)

def Heeds (key : String) (s : Scene) (v : Int) (P : Option Record → Prop) : Prop :=
  ∃ x, s.store.lookup key = .ok x ∧ v ≤ versionOf x ∧ (v = versionOf x → P x)

theorem Heeds.grows {s s' : Scene} {v : Int} {P Q : Option Record → Prop} {k : String}
    {rs : List Record} (h : Heeds key s v P) (hg : s.store.Grows k rs s'.store)
    (hPQ : ∀ x, P x → Q x) : Heeds key s' v Q := by
  obtain ⟨x, hx, hle, hP⟩ := h
  by_cases hk : key = k
  · subst hk
    cases rs with
    | nil => exact ⟨x, hg.lookup_nil ▸ hx, hle, fun he => hPQ x (hP he)⟩
    | cons r rs =>
        have hx' := hg.lookup hx
        have hv := hg.versionOf hx hx'
        rw [List.length_cons, Nat.cast_succ] at hv
        exact ⟨_, hx', by omega, fun he => absurd he (by omega)⟩
  · exact ⟨x, (hg.lookup_of_ne hk).trans hx, hle, fun he => hPQ x (hP he)⟩

namespace Stance

/-- What somebody with this stance knows of the record that is stored. Before its function starts a
call relies on it that nobody else writes. -/
def Knows (c : Config) (key : String) (s : Scene) : Stance → Prop
  | .fresh | .retrying | .parting _ => True
  | .loaded r | .announcing r | .admitted r =>
    ∃ x, s.store.lookup key = .ok x ∧ r.version = versionOf x ∧ Reflects x r
  | .running o => o.record.status = o.status ∧ o.status.rejects = false ∧
    Heeds key s o.record.version (Reflects · o.record)
  | .settled r _ => Heeds key s r.version (Reflects · r)
  | .owing r _ | .due r _ => Heeds key s r.version (Succeeds c s.now · r)

def Relies : Stance → Prop
  | .loaded _ | .announcing _ | .admitted _ => True
  | _ => False

variable {p p' : Stance} {s s' : Scene} {polite : Prop} {target? : Option Status}

theorem Knows.of_grows (h : p.Knows c key s) {k : String} {rs : List Record}
    (hg : s.store.Grows k rs s'.store) (hnow : s'.now.reaches s.now = .ok true)
    (hrelies : p.Relies → s'.store.lookup key = s.store.lookup key) : p.Knows c key s' := by
  cases p with
  | fresh | retrying | parting => trivial
  | loaded | announcing | admitted =>
      obtain ⟨x, hx, h⟩ := h
      exact ⟨x, (hrelies trivial).trans hx, h⟩
  | running o => exact ⟨h.1, h.2.1, h.2.2.grows hg fun _ => id⟩
  | settled r result => exact Heeds.grows h hg fun _ => id
  | owing | due => exact Heeds.grows h hg fun _ hx => hx.later hnow

theorem Knows.settle {result : Except Failure Json} {o : Opening}
    (h : (Stance.running o).Knows c key s) :
    (Stance.settled (settle b.config o.status o.record result).1
      (settle b.config o.status o.record result).2).Knows c key s := by
  obtain ⟨-, -, x, hx, hle, hP⟩ := h
  refine ⟨x, hx, ?_, fun he => ?_⟩
  · rw [version_settle]
    exact hle
  · rw [version_settle] at he
    exact (hP he).settle result

/-- A stride keeps what is known, and brings what is to be known. -/
theorem Knows.stride (hk : p.Knows b.config key s) (h : b.Stride key target? polite p s p' s') :
    p'.Knows b.config key s' := by
  cases h with
  | ticks ht => exact hk.of_grows (k := key) .refl ht fun _ => rfl
  | talks => exact hk.of_grows (k := key) .refl (Instant.reaches_self _) fun _ => rfl
  | loads hr =>
      cases hx : s.store.lookup key with
      | error f => rw [hx] at hr; cases hr
      | ok x =>
          rw [hx] at hr
          exact ⟨x, hx, versionOf_loaded hr, reflects_of_loaded hr⟩
  | stays | announced => exact hk
  | moves _ hc hw => exact ⟨_, hw.store.lookup_cons, rfl, reflects_some _⟩
  | starts hp =>
      obtain ⟨x, hx, hv, hr⟩ := hk
      exact ⟨status_permit, rejects_of_permit hp, x, hx, (version_permit.trans hv).le,
        fun _ => hr.permit⟩
  | rejects hp =>
      obtain ⟨x, hx, hv, hr⟩ := hk
      exact ⟨x, hx, (version_permit.trans hv).le, fun _ => hr.permit⟩
  | rests hc =>
      obtain ⟨x, hx, hle, hr⟩ := hk
      exact ⟨x, hx, hle, fun he => (hr he).succeeds⟩
  | owes hc hw =>
      obtain ⟨x, hx, hle, hr⟩ := hk
      refine ⟨x, hw.store.lookup_nil ▸ hx, (version_change hc).trans_le hle, fun he => ?_⟩
      rw [version_change hc] at he
      rw [hw.now]
      exact (hr he).succeeds_of_change hc
  | told => exact hk
  | _ => trivial

end Stance

end Breaker

end KeyedBreaker
