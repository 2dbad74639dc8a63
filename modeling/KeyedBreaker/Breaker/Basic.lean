import KeyedBreaker.Config
import KeyedBreaker.Record.Transition
import KeyedBreaker.Retry.Policy
import KeyedBreaker.Store.Access

namespace KeyedBreaker

inductive Listener where
  /-- Shows what it hears, and may then fail. -/
  | showing (failure? : Occurrence → Option Failure)
  /-- Keeps a log. -/
  | logging

structure Breaker where
  number : Nat := 0
  config : Config := {}
  listeners : List Listener := []
  /-- For overwrites that meet a conflicting write. -/
  policy : Retry.Policy := .conflict
  /-- The share of the jitter that a pause takes, the same for every pause. -/
  fraction : Binary64 := Binary64.zero

open Act

namespace Listener

def recording (raised : Option Failure) (hooks : List Hook) : Listener :=
  .showing fun o => if hooks.contains o.hook then raised else none

def hear (breaker number : Nat) (o : Occurrence) : Listener → Act Unit
  | .showing failure? => do
    emit (.heard breaker number o)
    hold
    match failure? o with
    | some f => throw f
    | none => pure ()
  | .logging =>
    match Notice.ofOccurrence? o with
    | some n => note (.listener breaker number) n
    | none => pure ()

end Listener

namespace Breaker

variable {α : Type}

def log (b : Breaker) (n : Notice) : Act Unit := note (.breaker b.number) n

def tellFrom (b : Breaker) (o : Occurrence) : Nat → List Listener → Act Unit
  | _, [] => pure ()
  | i, l :: ls => do
    tryCatch (l.hear b.number i o) fun f =>
      if f.isOrdinary then b.log (.listenerFailed o.key o.hook) else throw f
    tellFrom b o (i + 1) ls

def tell (b : Breaker) (o : Occurrence) : Act Unit := b.tellFrom o 0 b.listeners

def announce (b : Breaker) (key : String) (old new : Status) : Act Unit := do
  b.log (.transition key old new)
  b.tell (.transition key old new)

/-- A failed store operation is raised as a failure of the store. -/
def asStoreFailure (key operation : String) (a : Act α) : Act α :=
  tryCatch a fun f =>
    throw (if f.isA .store || !f.isOrdinary then f else .storeFrom key operation f)

/-- The record of a key; a missing one is that of a circuit that has just been closed. -/
def load (b : Breaker) (key : String) : Act Record := do
  match ← asStoreFailure key "get" (readRecord key) with
  | some r => pure r
  | none => ofTime (Record.entering b.config .closed (← now) {})

def write (key : String) (r : Record) : Act Record :=
  asStoreFailure key "set" (writeRecord key r)

/-- A write that gives way to a conflicting one: the update is dropped and noted. -/
def save (b : Breaker) (key : String) (r : Record) : Act Record :=
  tryCatch (write key r) fun f =>
    if f.isA .stale then do
      b.log (.writeConflict key f.versions.1 f.versions.2)
      pure r
    else throw f

def enter (b : Breaker) (target : Status) (now : Instant) (r : Record) : Except TimeError Record :=
  (Record.entering b.config target now r).map fun entered =>
    { entered with previousStatus := some r.status }

/-- Makes the transition that is due, if any. It is announced after it was saved, where it is. -/
def advance (b : Breaker) (key : String) (r : Record) (saving : Bool) : Act Record := do
  let t ← now
  match ← ofExcept (Record.due b.config r.status t r) with
  | none => pure r
  | some target =>
    let entered ← ofTime (b.enter target t r)
    let entered ← if saving then b.save key entered else pure entered
    b.announce key r.status target
    pure entered

end Breaker

end KeyedBreaker
