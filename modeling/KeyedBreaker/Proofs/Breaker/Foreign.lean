import KeyedBreaker.Proofs.Breaker.Control
import KeyedBreaker.Proofs.Breaker.Outcome

namespace KeyedBreaker

open Act Breaker

def Failure.undecodable (key : String) : Failure :=
  .store key "get" "undecodable record" (some .undecodable)

/-- What was played from the scene failed like this, ran no function and left the store alone. -/
structure Scene.Refused {α : Type} (s : Scene) (f : Failure) (played : Except Failure α × Scene) :
    Prop where
  result : played.1 = .error f
  starts : played.2.starts = s.starts
  store : played.2.store = s.store

/-- An operation on a key that guards no function. -/
inductive Errand where
  | status
  | snapshot
  | resetIn
  | force (target : Status)

namespace Errand

variable {b : Breaker} {key : String} {s : Scene} {r : Record} {x : Option Record} {f : Failure}
  {t : Instant}

def act (b : Breaker) (key : String) : Errand → Act Answer
  | .status => .status <$> b.status key
  | .snapshot => (.record ∘ some) <$> b.load key
  | .resetIn => .seconds <$> b.resetIn key
  | .force target => do
    let (previous, stored) ← b.overwriteOnce key target
    b.confirm key target previous
    return .record (some stored)

def answer (b : Breaker) (t : Instant) (r : Record) : Errand → Except Failure Answer
  | .status => .ok (.status r.status)
  | .snapshot => .ok (.record (some r))
  | .resetIn => ((r.remaining t).map .seconds).mapError .time
  | .force target => ((b.forced target t r).map fun e => .record (some e.next)).mapError .time

/-- How the operation ends over a record: with its answer, unless a listener gets in its way, or it cannot
tell how long a break will last. -/
inductive Ended (b : Breaker) (t : Instant) (r : Record) (m : Errand) : Except Failure Answer → Prop
  | answered {a : Answer} : m.answer b t r = .ok a → Ended b t r m (.ok a)
  | interrupted {f : Failure} : f.isOrdinary = false → ¬ b.Polite → Ended b t r m (.error f)
  | undated : m = .resetIn → r.status = .open → ¬ r.Dated t →
      Ended b t r m (.error (.time .mixedDifference))

theorem ended_answer (hspans : b.Spans t) (m : Errand) : m.Ended b t r (m.answer b t r) := by
  cases m with
  | status | snapshot => exact .answered rfl
  | resetIn =>
      rw [answer]
      cases hr : r.remaining t with
      | ok seconds => exact .answered (by rw [answer, hr]; rfl)
      | error err =>
          obtain ⟨hs, hd, rfl⟩ := Record.remaining_eq_error hr
          exact .undated rfl hs hd
  | force target =>
      obtain ⟨e, he⟩ := hspans.entering target r
      rw [answer, forced, he]
      exact .answered (by rw [answer, forced, he]; rfl)

theorem play_act_of_unloaded {s' : Scene} (h : (b.load key).play s = (.error f, s')) (m : Errand) :
    (m.act b key).play s = (.error f, s') := by
  cases m with
  | status =>
      rw [act, play_map, Breaker.status, play_bind_error s h]
      rfl
  | snapshot =>
      rw [act, play_map, h]
      rfl
  | resetIn =>
      rw [act, play_map, Breaker.resetIn, play_bind_error s h]
      rfl
  | force target => exact play_bind_error s (play_bind_error s h _) _

theorem refused_act (hq : s.Quiet) (h : s.store.lookup key = .error f) (m : Errand) :
    s.Refused f ((m.act b key).play s) := by
  obtain ⟨s', hload, hl⟩ := b.load_leads hq key
  rw [h] at hload
  rw [play_act_of_unloaded hload m]
  exact ⟨rfl, hl.starts, hl.store.lookup_nil⟩

section

variable (hq : s.Quiet) (hx : s.store.lookup key = .ok x) (hr : b.loaded s.now (.ok x) = .ok r)
include hq hx hr

theorem yields_force (target : Status) :
    b.Yields (((force target).act b key).play s).1 ((force target).answer b s.now r) := by
  obtain ⟨s₁, hload, hl₁⟩ := b.load_leads hq key
  rw [hx, hr] at hload
  have hplay : (b.overwriteOnce key target).play s = _ := play_overwriteOnce hload
  rw [hl₁.now] at hplay
  rw [act, answer]
  cases he : b.forced target s.now r with
  | error err =>
      rw [he] at hplay
      rw [play_bind_error s hplay]
      exact .inl rfl
  | ok e =>
      obtain ⟨s₂, hw, -⟩ := write_leads (hl₁.quiet hq) ((hl₁.lookup_eq key).trans hx)
        ((version_forced he).trans (versionOf_loaded hr))
      rw [he] at hplay
      dsimp only at hplay
      rw [play_map, hw] at hplay
      obtain ⟨out, s₃, hc, hy, -⟩ := b.confirm_leads key target r.status s₂
      rw [play_bind_ok s hplay]
      dsimp only
      obtain rfl | ⟨f, hf, hn, rfl⟩ := hy
      · rw [play_bind_ok s₂ hc]
        exact .inl rfl
      · rw [play_bind_error s₂ hc]
        exact .inr ⟨f, hf, hn, rfl⟩

theorem yields_act (m : Errand) : b.Yields ((m.act b key).play s).1 (m.answer b s.now r) := by
  obtain ⟨s₁, hload, hl₁⟩ := b.load_leads hq key
  rw [hx, hr] at hload
  cases m with
  | status =>
      rw [act, play_map, Breaker.status, play_bind_ok s hload]
      exact .inl rfl
  | snapshot =>
      rw [act, play_map, hload]
      exact .inl rfl
  | resetIn =>
      rw [act, play_map, Breaker.resetIn, play_bind_ok s hload, play_bind_ok s₁ (play_now s₁),
        play_ofTime, hl₁.now, answer]
      cases r.remaining s.now <;> exact .inl rfl
  | force target => exact yields_force hq hx hr target

theorem ended_act (hspans : b.Spans s.now) (m : Errand) :
    m.Ended b s.now r ((m.act b key).play s).1 := by
  obtain he | ⟨f, hf, hn, he⟩ := yields_act hq hx hr m
  · rw [he]
    exact ended_answer hspans m
  · rw [he]
    exact .interrupted hf hn

end

end Errand

namespace Visit

/-- The surrounding of a call while its function runs: no access to the store meets a fault, what others
put under the key meanwhile can be decoded, and the clock shows a time that can be compared with that of
the beginning. -/
structure Tended (v : Visit) (key : String) (s : Scene) : Prop where
  quiet : (v.entry key s).2.Quiet → (v.ending key s).Quiet
  readable : (∃ x, (v.entry key s).2.store.lookup key = .ok x) →
    ∃ x, (v.ending key s).store.lookup key = .ok x
  clock : ∃ passed, (v.ending key s).now.reaches (v.before s).now = .ok passed
  spans : v.breaker.Spans (v.ending key s).now

structure Ran (v : Visit) (key : String) (s : Scene) : Prop where
  started : (v.entry key s).2.starts = key :: (v.before s).starts
  once : (v.run key s).2.starts = (v.ending key s).starts

/-- How a call is meant to end that reads this under its key. -/
inductive Handled (v : Visit) (key : String) (s : Scene) (x : Option Record) : Prop
  | own : v.Ran key s → (v.run key s).1 = v.result → Handled v key s x
  /-- The classifier fails instead. -/
  | unjudged {f g} : v.Ran key s → v.result = .error f → v.breaker.config.counts f = .error g →
      (v.run key s).1 = .error g → Handled v key s x
  | rejected {r rs f} : v.breaker.Admitted (v.before s).now x r rs → r.Rejects key f →
      (v.run key s).2.starts = (v.before s).starts → (v.run key s).1 = .error f → Handled v key s x
  /-- A listener gets in its way. -/
  | interrupted {f} : f.isOrdinary = false → ¬ v.breaker.Polite → (v.run key s).1 = .error f →
      Handled v key s x

/-- How a call ends that loads a record, whoever wrote it. -/
inductive Replied (v : Visit) (key : String) (s : Scene) (x : Option Record) (r : Record) : Prop
  | handled : v.Handled key s x → Replied v key s x r
  | undated : ¬ r.Dated (v.before s).now →
      (v.before s).Refused (.time .mixedComparison) (v.run key s) → Replied v key s x r
  | unweighed : r.status = .closed → ¬ r.FiniteShare → (v.before s).Refused .ratioRange (v.run key s) →
      Replied v key s x r
  /-- The function has run, but its result is lost and not counted. -/
  | lost : r.status = .closed → ¬ r.FiniteShare → v.Ran key s →
      (v.ending key s).Refused .ratioRange (v.run key s) → Replied v key s x r

variable {v : Visit} {key : String} {s : Scene} {x : Option Record} {r r' : Record} {rs : List Record}
  {f : Failure}

theorem refused_run {s₁ : Scene} (h : (v.breaker.begin key).play (v.before s) = (.error f, s₁))
    (hl : (v.before s).Leads key [] [] s₁) : (v.before s).Refused f (v.run key s) := by
  have hentry : v.entry key s = (.error f, s₁) := play_enterCall {} h
  have hrun : v.run key s = (.error f, s₁) := by rw [run, hentry]
  rw [hrun]
  exact ⟨rfl, hl.starts, hl.store.lookup_nil⟩

theorem handled_of_settled {status : Status} (hran : v.Ran key s)
    (h : v.breaker.Yields (v.run key s).1
      (Record.settle v.breaker.config status r v.result).2) : v.Handled key s x := by
  obtain h | ⟨f, hf, hn, h⟩ := h
  · obtain ⟨he, -⟩ | ⟨f, g, hf, -, hc, he⟩ := Record.settle_result_cases v.breaker.config status r v.result
    · exact .own hran (h.trans he)
    · exact .unjudged hran hf hc (h.trans he)
  · exact .interrupted hf hn h

/-- The deadline of a record that a call is admitted under can be compared with the clock. If its share of
failures may be no number, it is the record that was loaded. -/
theorem dated_of_admitted {t : Instant} (h : v.breaker.Admitted t x r' rs) :
    r'.Dated t ∧ (v.breaker.loaded t (.ok x) = .ok r' ∨ r'.FiniteShare) := by
  cases h with
  | loaded hl hc => exact ⟨dated_of_change hc, .inl hl⟩
  | changed hl hc =>
      obtain ⟨entered, hent, rfl⟩ := enter_eq_ok (change_eq_some hc).2
      exact ⟨hent.dated, .inr (Record.finiteShare_of_counted ⟨hent.counted.failures, hent.counted.calls⟩)⟩

section

variable (hq : (v.before s).Quiet) (hx : (v.before s).store.lookup key = .ok x)
include hq hx

theorem handled_of_rejected (hspans : v.breaker.Spans (v.before s).now) {s₁ : Scene}
    (ha : v.breaker.Admitted (v.before s).now x r' rs)
    (hl : (v.before s).Leads key rs (tried key rs) s₁)
    (hp : Record.permit v.breaker.config r'.status key (v.before s).now r' = (r', .error f))
    (hrejects : r'.Rejects key f)
    (hbegin : (v.breaker.begin key).play (v.before s) =
      (.ok (v.breaker.opening key (v.before s).now (v.before s).monotonic r', .error f), s₁)) :
    v.Handled key s x := by
  let o := v.breaker.opening key (v.before s).now (v.before s).monotonic r'
  have hrecord : o.record = r' := congrArg Prod.fst hp
  have hordinary : ∀ g, (.error f : Except Failure Json) = .error g → g.isOrdinary = true := by
    intro g hg
    cases hg
    rcases hrejects with ⟨-, seconds, rfl⟩ | ⟨-, rfl⟩ <;> rfl
  obtain ⟨out, s', hplay, hfin⟩ := v.breaker.finish_finished (hl.quiet hq) (hl.store.lookup hx) o
    (.error f) hordinary
  have hstarts := keeps_finish v.breaker key sameStarts_steady o (.error f) s₁
  have hentry : v.entry key s = (Stage.ended <$> v.breaker.finish key o (.error f)).play s₁ :=
    play_enterCall {} hbegin
  have hrun : v.run key s = (out, s') := by
    rw [run, hentry, play_map, hplay]
    cases out <;> rfl
  rw [hplay] at hstarts
  have hout : v.breaker.Yields out (.error f) := by
    rw [hrecord] at hfin
    cases hfin with
    | unrenewed hr _ =>
        exfalso
        rw [hl.now] at hr
        cases renewed_eq_error hspans hr with
        | undated hd => exact hd (dated_of_admitted ha).1
        | unweighed hs _ => rcases hrejects with ⟨ho, -⟩ | ⟨ho, -⟩ <;> cases hs.symm.trans ho
    | unannounced _ hf hn _ => exact .inr ⟨_, hf, hn, rfl⟩
    | persisted _ _ hy => exact hy
  obtain rfl | ⟨g, hg, hn, rfl⟩ := hout
  · refine .rejected ha hrejects ?_ ?_ <;> rw [hrun]
    exact hstarts.trans hl.starts
  · exact .interrupted hg hn (by rw [hrun])

theorem replied_of_permitted (hr : v.breaker.loaded (v.before s).now (.ok x) = .ok r)
    (ht : v.Tended key s) {s₁ : Scene}
    (ha : v.breaker.Admitted (v.before s).now x r' rs)
    (hl : (v.before s).Leads key rs (tried key rs) s₁)
    (hbegin : (v.breaker.begin key).play (v.before s) =
      (.ok (v.breaker.opening key (v.before s).now (v.before s).monotonic r', .ok ()), s₁)) :
    v.Replied key s x r := by
  let o := v.breaker.opening key (v.before s).now (v.before s).monotonic r'
  have hentry : v.entry key s = (.ok (.running o), s₁.seeing [.started key]) :=
    play_enterCall {} hbegin
  have hquiet : (v.ending key s).Quiet := ht.quiet (by rw [hentry]; exact hl.quiet hq)
  obtain ⟨y, hy⟩ := ht.readable ⟨_, by rw [hentry]; exact hl.store.lookup hx⟩
  obtain ⟨out, s', hplay, hcon⟩ := v.breaker.conclude_concluded hquiet hy o v.result
  have hrun : v.run key s = (out, s') := by rw [run, hentry, ← hplay]
  have hran : v.Ran key s := by
    refine ⟨?_, ?_⟩
    · rw [hentry, ← hl.starts]
      rfl
    · have hkept := keeps_conclude v.breaker key sameStarts_steady o v.result (v.ending key s)
      rw [hplay] at hkept
      rw [hrun]
      exact hkept
  have hsettled : v.breaker.Yields out (Record.settle v.breaker.config o.status o.record v.result).2 →
      v.Replied key s x r := fun hout => .handled (handled_of_settled hran (by rw [hrun]; exact hout))
  cases hcon with
  | uncounted hset _ => exact hsettled (.inl hset.symm)
  | counted hfin =>
      cases hfin with
      | unannounced _ hf hn _ => exact .handled (.interrupted hf hn (by rw [hrun]))
      | persisted _ _ hyields => exact hsettled hyields
      | unrenewed hren hl' =>
          obtain ⟨hd, hsame⟩ := dated_of_admitted ha
          cases renewed_eq_error ht.spans hren with
          | undated hn =>
              exact absurd ((hd.permit.later ht.clock).settle v.result) hn
          | unweighed hs hshare =>
              have hs : r'.status = .closed :=
                ((Record.status_settle _).trans Record.status_permit).symm.trans hs
              have hnot : ¬ r'.FiniteShare := by
                intro hfinite
                obtain ⟨share, hsettled⟩ := hfinite.permit_settle hs v.result
                exact hshare share hsettled
              obtain hload | hfinite := hsame
              · rw [hr] at hload
                cases hload
                refine .lost hs hnot hran ?_
                rw [hrun]
                exact ⟨rfl, hl'.starts, hl'.store.lookup_nil⟩
              · exact absurd hfinite hnot

theorem replied_of_loaded (hr : v.breaker.loaded (v.before s).now (.ok x) = .ok r)
    (hspans : v.breaker.Spans (v.before s).now) (ht : v.Tended key s) : v.Replied key s x r := by
  obtain ⟨out, s₁, hbegin, hbegun⟩ := v.breaker.begin_begun hq hx
  cases hbegun with
  | unloaded hl _ =>
      rw [hr] at hl
      cases hl
  | unchanged hl hc hleads =>
      rw [hr] at hl
      cases hl
      cases change_eq_error hspans hc with
      | undated hd => exact .undated hd (refused_run hbegin hleads)
      | unweighed hs hshare =>
          refine .unweighed hs (fun hfinite => ?_) (refused_run hbegin hleads)
          obtain ⟨share, h⟩ := hfinite.now
          exact hshare share h
  | unannounced _ _ hf hn _ =>
      have hentry : v.entry key s = (_, s₁) := play_enterCall {} hbegin
      exact .handled (.interrupted hf hn (by rw [run, hentry]))
  | begun ha hleads =>
      obtain hp | ⟨f, hp, hrejects⟩ :=
        (dated_of_admitted ha).1.permitted (c := v.breaker.config) key hspans.windowEnd
      · rw [hp] at hbegin
        exact replied_of_permitted hq hx hr ht ha hleads hbegin
      · rw [hp] at hbegin
        exact .handled (handled_of_rejected hq hx hspans ha hleads hp hrejects hbegin)

end

/-- Content under a key that no breaker needs to have written. Either it cannot be decoded, and every
operation on the key fails as an access to the store, runs no function and writes nothing. Or it is
decoded, and an operation fails by the arithmetic of the breaker in two cases only: the time at which the
status of the record ends cannot be compared with the clock, or its circuit is closed and its share of
failures is not always finite. -/
theorem foreign_content {keyPrefix : String} {client : Client} {content : Content}
    (hq : (v.before s).Quiet) (hstore : (v.before s).store = .shared keyPrefix client)
    (hcontent : client.content? (keyPrefix ++ key) = some content)
    (hspans : v.breaker.Spans (v.before s).now) (ht : v.Tended key s) :
    (content.decode? = none →
        (∀ m : Errand, (v.before s).Refused (.undecodable key)
          ((m.act v.breaker key).play (v.before s))) ∧
        (v.before s).Refused (.undecodable key) (v.run key s)) ∧
      ∀ r, content.decode? = some r →
        (∀ m : Errand, m.Ended v.breaker (v.before s).now r
          ((m.act v.breaker key).play (v.before s)).1) ∧
        v.Replied key s (some r) r := by
  have hlookup : (v.before s).store.lookup key = Store.answer key (some content) := by
    rw [hstore, Store.lookup_shared, hcontent]
  refine ⟨fun hnone => ?_, fun r hsome => ?_⟩
  · have hx : (v.before s).store.lookup key = .error (.undecodable key) := by
      rw [hlookup, Store.answer, hnone]
      rfl
    obtain ⟨s₁, hbegin, hl⟩ := v.breaker.begin_of_unread hq hx
    exact ⟨Errand.refused_act hq hx, refused_run hbegin hl⟩
  · have hx : (v.before s).store.lookup key = .ok (some r) := by
      rw [hlookup, Store.answer, hsome]
    exact ⟨Errand.ended_act hq hx rfl hspans, replied_of_loaded hq hx rfl hspans ht⟩

def newYear : Instant := ⟨63713433600000000, some .zero, by decide⟩

def foreignScene (content : Content) : Scene where
  now := newYear
  store := .shared "" { writes := [("k", some content)] }

def plainVisit : Visit where
  breaker := {}
  result := .ok .null

def localBreak : Content := .text "\x7b\"status\":\"open\",\"close_at\":\"2020-01-01T00:00:05\"\x7d"

theorem foreign_content_localBreak : ∃ r, localBreak.decode? = some r ∧
    (∀ m : Errand, m.Ended {} newYear r ((m.act {} "k").play (foreignScene localBreak)).1) ∧
    plainVisit.Replied "k" (foreignScene localBreak) (some r) r := by
  have hend : (plainVisit.ending "k" (foreignScene localBreak)).now = newYear := by decide +kernel
  have hspans : Spans {} newYear := by
    refine ⟨⟨⟨63713433610000000, some ⟨0, by decide⟩, by decide⟩, ?_⟩,
      ⟨⟨63713433605000000, some ⟨0, by decide⟩, by decide⟩, ?_⟩⟩ <;> decide +kernel
  have htended : plainVisit.Tended "k" (foreignScene localBreak) := by
    refine ⟨fun h => h, fun h => h, ?_, ?_⟩
    · rw [hend]
      exact ⟨true, Instant.reaches_self _⟩
    · rw [hend]
      exact hspans
  cases hr : localBreak.decode? with
  | none => exact absurd hr (by decide +kernel)
  | some r =>
      obtain ⟨herrands, hcall⟩ := (foreign_content (fun _ => rfl) rfl (by decide +kernel) hspans
        htended).2 r hr
      exact ⟨r, rfl, herrands, hcall⟩

/-- The content is decoded, but a breaker whose clock has an offset can tell neither how long the break
will last nor whether it has ended. -/
theorem localBreak_mixed :
    localBreak.decode?.isSome = true ∧
      ((Errand.resetIn.act {} "k").play (foreignScene localBreak)).1 matches
        .error (.time .mixedDifference) ∧
      (plainVisit.run "k" (foreignScene localBreak)).1 matches .error (.time .mixedComparison) := by
  decide +kernel

end Visit

end KeyedBreaker
