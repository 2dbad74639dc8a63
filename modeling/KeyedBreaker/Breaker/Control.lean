import KeyedBreaker.Breaker.Basic

namespace KeyedBreaker.Breaker

open Act

def status (b : Breaker) (key : String) : Act Status := do return (← b.load key).status

def resetIn (b : Breaker) (key : String) : Act Binary64 := do
  let r ← b.load key
  ofTime (r.remaining (← now))

/-- One attempt to force a key into a status: the status that was overwritten and the record that
was stored. Forcing the status that the key has already leaves the previous status. -/
def overwriteOnce (b : Breaker) (key : String) (target : Status) : Act (Status × Record) := do
  let current ← b.load key
  let entered ← ofTime (b.enter target (← now) current)
  let entered :=
    if current.status = target then { entered with previousStatus := current.previousStatus }
    else entered
  return (current.status, ← write key entered)

def backOff (b : Breaker) (key : String) (target : Status) (attempt : Nat) : Act Unit := do
  b.log (.overwriteConflict key target attempt)
  emit (.paused (b.policy.delay b.fraction attempt))

def confirm (b : Breaker) (key : String) (target previous : Status) : Act Unit :=
  if previous = target then pure () else b.announce key previous target

end KeyedBreaker.Breaker
