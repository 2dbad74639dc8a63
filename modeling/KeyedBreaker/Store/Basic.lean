import KeyedBreaker.Record.Text

namespace KeyedBreaker

inductive Content where
  | text (value : String)
  | bytes (value : ByteArray)
  deriving DecidableEq

namespace Content

def text? : Content → Option String
  | .text s => some s
  | .bytes b => String.fromUTF8? b

def encoded : Content → Content
  | .text s => .bytes s.toUTF8
  | c => c

def decode? (c : Content) : Option Record := c.text?.bind Record.decode?

end Content

structure Client where
  /-- Texts are answered in UTF-8. -/
  answersBytes : Bool := false
  /-- A write of nothing is a deletion. -/
  writes : List (String × Option Content) := []

namespace Client

def content? (c : Client) (name : String) : Option Content := (c.writes.lookup name).join

def get? (c : Client) (name : String) : Option Content :=
  if c.answersBytes then (c.content? name).map Content.encoded else c.content? name

def write (c : Client) (name : String) (content : Option Content) : Client :=
  { c with writes := (name, content) :: c.writes }

end Client

/-- Everything that was ever written, latest first: what is held under a name was written there last. -/
inductive Store where
  | memory (writes : List (String × Record))
  | shared (keyPrefix : String) (client : Client)

namespace Store

inductive Entry where
  | record (r : Record)
  | content (c : Content)
  deriving DecidableEq

def hasLocks : Store → Bool
  | .memory _ => true
  | .shared .. => false

def nameOf (s : Store) (key : String) : String :=
  match s with
  | .memory _ => key
  | .shared keyPrefix _ => keyPrefix ++ key

def names : Store → List String
  | .memory writes => (writes.map (·.1)).eraseDups
  | .shared _ client => (client.writes.map (·.1)).eraseDups

def entry? (s : Store) (name : String) : Option Entry :=
  match s with
  | .memory writes => (writes.lookup name).map .record
  | .shared _ client => (client.content? name).map .content

/-- The names under which two stores hold different things, with what the later one holds. -/
def changes (earlier later : Store) : List (String × Option Entry) :=
  (later.names.filter fun name => earlier.entry? name ≠ later.entry? name).map
    fun name => (name, later.entry? name)

def overwrite (s : Store) (name : String) (content : Option Content) : Store :=
  match s with
  | .memory writes => .memory writes
  | .shared keyPrefix client => .shared keyPrefix (client.write name content)

end Store

end KeyedBreaker
