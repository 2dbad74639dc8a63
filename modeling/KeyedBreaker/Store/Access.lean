import KeyedBreaker.Scene

namespace KeyedBreaker.Act

def meetClient (access : Access) (key operation : String) : Act Unit := do
  match ← nextFault access with
  | .raise f => throw (if f.isOrdinary then .storeFrom key operation f else f)
  | _ => pure ()

def fetch (key : String) : Act (Option Record) := do
  match (← get).store with
  | .memory writes => pure (writes.lookup key)
  | .shared keyPrefix client =>
    emit (.clientRead (keyPrefix ++ key))
    meetClient .clientRead key "get"
    match client.get? (keyPrefix ++ key) with
    | none => pure none
    | some content =>
      match content.decode? with
      | some r => pure (some r)
      | none => throw (.store key "get" "undecodable record" (some .undecodable))

def keep (key : String) (r : Record) : Act Unit := do
  match (← get).store with
  | .memory writes => modify fun s => { s with store := .memory ((key, r) :: writes) }
  | .shared keyPrefix client =>
    emit (.clientWrite (keyPrefix ++ key))
    meetClient .clientWrite key "set"
    let client := client.write (keyPrefix ++ key) (some (.text r.encode))
    modify fun s => { s with store := .shared keyPrefix client }

/-- Stores the record under the next version, if it is of the version that is stored. -/
def put (key : String) (r : Record) : Act Record := do
  let stored := ((← fetch key).map (·.version)).getD 0
  if r.version = stored then
    let next := { r with version := stored + 1 }
    keep key next
    pure next
  else throw (.stale key r.version stored)

def readRecord (key : String) : Act (Option Record) := do
  emit (.storeRead key)
  match ← nextFault .read with
  | .raise f => throw f
  | _ => fetch key

def writeRecord (key : String) (r : Record) : Act Record := do
  emit (.storeWrite key r.version)
  match ← nextFault .write with
  | .pass => put key r
  | .raise f => throw f
  | .stale actual => throw (.stale key r.version actual)

def overwrite (name : String) (content : Option Content) : Act Unit :=
  modify fun s => { s with store := s.store.overwrite name content }

end KeyedBreaker.Act
