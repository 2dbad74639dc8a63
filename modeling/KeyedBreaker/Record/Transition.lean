import KeyedBreaker.Config
import KeyedBreaker.Record.Basic

namespace KeyedBreaker.Record

variable {α : Type}

/-- A fresh record of the target status. The time field that the new status does not use is kept. -/
def entering (c : Config) (target : Status) (now : Instant) (r : Record) :
    Except TimeError Record :=
  match target with
  | .closed => do
    let t ← now.addSeconds c.samplingDuration
    .ok { r.clearCounters with status := .closed, resetAt := some t }
  | .open => do
    let t ← now.addSeconds c.breakDuration
    .ok { r.clearCounters with status := .open, closeAt := some t }
  | .halfOpen => .ok { r.clearCounters with status := .halfOpen }
  | .isolated => .ok { r.clearCounters with status := .isolated }

/-- Whether a closed circuit opens; counters of an expired window do not open it. -/
def opens (c : Config) (now : Instant) (r : Record) : Except Failure Bool := do
  if ← (r.windowExpired now).mapError .time then .ok false
  else if r.failureCount < c.failureThreshold then .ok false
  else match ← r.failureRatio with
    | none => .ok false
    | some ratio => .ok !(ratio < c.failureRatio)

def due (c : Config) (status : Status) (now : Instant) (r : Record) :
    Except Failure (Option Status) :=
  match status with
  | .closed => do if ← opens c now r then .ok (some .open) else .ok none
  | .open =>
    match r.closeAt with
    | none => .ok (some .halfOpen)
    | some t => do
      if ← (now.reaches t).mapError .time then .ok (some .halfOpen) else .ok none
  | .halfOpen =>
    if 0 < r.failureCount then .ok (some .open)
    else if c.successThreshold ≤ r.successCount then .ok (some .closed)
    else .ok none
  | .isolated => .ok none

/-- The record with which a function starts, or the reason why it does not. -/
def permit (c : Config) (status : Status) (key : String) (now : Instant) (r : Record) :
    Record × Except Failure Unit :=
  match status with
  | .closed =>
    let rolled := r.rollWindow now c.samplingDuration
    (rolled.1, rolled.2.mapError .time)
  | .halfOpen => (r, .ok ())
  | .open =>
    match r.remaining now with
    | .ok seconds => (r, .error (.circuitOpen key seconds))
    | .error e => (r, .error (.time e))
  | .isolated => (r, .error (.circuitIsolated key))

def countCall (r : Record) : Record := { r with totalCount := r.totalCount + 1 }

def countFailure (r : Record) : Record := { r with failureCount := r.failureCount + 1 }

def countSuccess (r : Record) : Record := { r with successCount := r.successCount + 1 }

def countGood (status : Status) (r : Record) : Record :=
  match status with
  | .halfOpen => r.countCall.countSuccess
  | _ => r.countCall

/-- The record after the function, and the result of the call. Failures that are not ordinary leave
the record alone. When the classifier fails, its failure replaces that of the function. -/
def settle (c : Config) (status : Status) (r : Record) (result : Except Failure α) :
    Record × Except Failure α :=
  match result with
  | .ok v => (countGood status r, .ok v)
  | .error f =>
    if f.isOrdinary then
      match c.counts f with
      | .ok true => (r.countCall.countFailure, .error f)
      | .ok false => (countGood status r, .error f)
      | .error g => (r.countCall, .error g)
    else (r, .error f)

end KeyedBreaker.Record
