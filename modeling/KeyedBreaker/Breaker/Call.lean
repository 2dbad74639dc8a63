import KeyedBreaker.Breaker.Basic

namespace KeyedBreaker.Breaker

open Act

structure Opening where
  record : Record
  /-- The status under whose rules the call is made. -/
  status : Status
  /-- The monotonic time when it began. -/
  started : Binary64

/-- The first part, with the reason why the function does not start, if it does not. A transition
that is due is saved first, so that a call which comes to nothing does not repeat it. -/
def begin (b : Breaker) (key : String) : Act (Opening × Except Failure Unit) := do
  let r ← b.advance key (← b.load key) true
  let started ← monotonic
  let (record, permitted) := Record.permit b.config r.status key (← now) r
  pure ({ record, status := r.status, started }, permitted)

def Opening.elapsed (o : Opening) : Act Binary64 := do
  return ((← monotonic) - o.started).max Binary64.zero

/-- Saves the counters. When this fails after the call failed too, both failures are raised. -/
def persist (b : Breaker) (key : String) (r : Record) (called : Option Failure) : Act Unit :=
  tryCatch (discard (b.save key r)) fun f =>
    match called with
    | some g =>
      if f.isA .store then
        throw (.group ("circuit_breaker: " ++ key ++ " call and state write both failed") [g, f])
      else throw f
    | none => throw f

/-- The end of a call whose record and result are settled. -/
def finish (b : Breaker) (key : String) (o : Opening) (result : Except Failure Json) :
    Act Json := do
  match result with
  | .ok v =>
    let elapsed ← o.elapsed
    let r ← b.advance key o.record false
    b.persist key r none
    b.tell (.succeeded key elapsed)
    pure v
  | .error f =>
    if f.isOrdinary then
      let elapsed ← o.elapsed
      let r ← b.advance key o.record false
      b.persist key r (some f)
      b.tell (.ofFailure key o.status f elapsed)
    throw f

def conclude (b : Breaker) (key : String) (o : Opening) (result : Except Failure Json) : Act Json :=
  let (record, result) := Record.settle b.config o.status o.record result
  b.finish key { o with record } result

end KeyedBreaker.Breaker
