import CostCatalog.Cache.Glob
import CostCatalog.Fault.Basic
import CostCatalog.Json.Reader

/-!
# The read cache

Values kept under keys for a time. Each is held as its JSON text, in ASCII, so a reader gets a fresh
copy. An entry whose time is up is never read; it is dropped when it is asked for, and all such
entries are dropped whenever one is written. Every key is kept behind the cache's own stem, and a
pattern is matched behind it too.

A value that cannot be written and a text that cannot be read are failures of the cache, with one
exception: where arrays and objects are nested too deep it is the stack that gives out, and what
comes of that is an accident that the cache does not take for its own.
-/

namespace CostCatalog

/-- A value on its way into the cache: JSON, or something with a part that has no JSON form, named by
its type. -/
inductive Storable (τ : Type := String) where
  | json (v : Json τ)
  | foreign (type : String)

namespace Cache

/-- An entry: its full key, when it ends, and its text. -/
structure Slot where
  key : String
  expiresAt : Float
  payload : String

end Cache

/-- A cache: the stem of its keys, its entries, the oldest first, and how deep the values that it
reads and writes may be nested. No two entries have one key. -/
structure Cache where
  stem : String := ""
  slots : List Cache.Slot := []
  depth : Json.Depth := {}

namespace Cache

/-- The entry with a full key. -/
def find? (c : Cache) (key : String) : Option Slot := c.slots.find? fun s => s.key == key

/-- The cache without the entry with a full key. -/
def erase (c : Cache) (key : String) : Cache :=
  { c with slots := c.slots.filter fun s => s.key != key }

/-- The cache with an entry written: in the place of one with its key, or at the end. -/
def put (c : Cache) (slot : Slot) : Cache :=
  if (c.find? slot.key).isSome then
    { c with slots := c.slots.map fun s => if s.key = slot.key then slot else s }
  else { c with slots := c.slots ++ [slot] }

/-- The cache without the entries whose time is up. -/
def sweep (c : Cache) (now : Float) : Cache :=
  { c with slots := c.slots.filter fun s => !decide (s.expiresAt ≤ now) }

/-- The fault of a text that cannot be read. -/
def readFault : Json.ReadError → Fault
  | .nesting h => .unexpected (.stackExhausted h.activity)
  | e => .ofCause (.cache "get" e.message)

/-- The fault of a value that cannot be written. -/
def writeFault : Json.Obstacle → Fault
  | .nesting => .unexpected (.stackExhausted "encoding a JSON object")
  | .digits => .ofCause (.cache "set" (Decimal.tooLong ""))

/-- When an entry ends that is to be kept for a time from now on. A whole number of seconds has to be
one that a double can be nearest to. -/
def endAfter (ttl : Duration) (now : Float) : Except Fault Float :=
  match ttl with
  | .real ttl => .ok (now + ttl)
  | .whole ttl =>
    match Binary64.ofInt? ttl with
    | some ttl => .ok (now + ttl)
    | none => .error (.unexpected .beyondDoubles)

section

variable {τ : Type} [Textual τ]

/-- What is kept under a key, with texts of some type; nothing when nothing is, or its time is up. A
text that cannot be read is a fault and stays. -/
def getAs (τ : Type) [Textual τ] [DecidableEq τ] (c : Cache) (key : String) (now : Float) :
    Except Fault (Option (Json τ)) × Cache :=
  match c.find? (c.stem ++ key) with
  | none => (.ok none, c)
  | some slot =>
    if slot.expiresAt ≤ now then (.ok none, c.erase (c.stem ++ key))
    else match Json.decode c.depth (Textual.points slot.payload) with
      | .ok v => (.ok (some v), c)
      | .error e => (.error (readFault e), c)

/-- What is kept under a key. -/
def get (c : Cache) (key : String) (now : Float) : Except Fault (Option Json) × Cache :=
  c.getAs String key now

/-- The text of a value, or the fault that there is none. -/
def written (c : Cache) : Storable τ → Except Fault String
  | .foreign type =>
    .error (.ofCause (.cache "set" ("Object of type " ++ type ++ " is not JSON serializable")))
  | .json v =>
    match v.obstacle? c.depth.levels with
    | none => .ok v.printAscii
    | some o => .error (writeFault o)

/-- Keeps a value under a key for a time. A value that cannot be written is a fault and changes
nothing. The entries whose time is up are dropped at a reading of the clock of its own, before it
turns out whether the new one has an end. -/
def set (c : Cache) (key : String) (value : Storable τ) (ttl : Duration) (now : Float)
    (swept : Float := now) : Except Fault Unit × Cache :=
  match c.written value with
  | .error f => (.error f, c)
  | .ok payload =>
    match endAfter ttl now with
    | .error f => (.error f, c.sweep swept)
    | .ok ends => (.ok (), (c.sweep swept).put ⟨c.stem ++ key, ends, payload⟩)

end

/-- Drops what is kept under some keys. -/
def delete (c : Cache) (keys : List String) : Cache :=
  keys.foldl (fun c key => c.erase (c.stem ++ key)) c

/-- The entries whose full keys match the stem followed by a pattern. -/
def matching (c : Cache) (pattern : String) : List Slot :=
  c.slots.filter fun s => Glob.isMatch (c.stem ++ pattern) s.key

/-- Drops the entries whose full keys match the stem followed by a pattern, and says how many there
were. -/
def deleteMatching (c : Cache) (pattern : String) : Nat × Cache :=
  ((c.matching pattern).length,
    { c with slots := c.slots.filter fun s => !Glob.isMatch (c.stem ++ pattern) s.key })

/-- Plants a text under a key of the cache, as another writer of the same memory would. -/
def plant (c : Cache) (key payload : String) (expiresAt : Float) : Cache :=
  c.put ⟨c.stem ++ key, expiresAt, payload⟩

/-- The full keys, the oldest first. -/
def keys (c : Cache) : List String := c.slots.map (·.key)

end Cache

/-- Where values are kept: nowhere, or in memory. -/
inductive CacheBackend where
  | none
  | memory (c : Cache)

/-- The name of a backend in the log. -/
def CacheBackend.title : CacheBackend → String
  | .none => "NoOpCache"
  | .memory _ => "InMemoryCache"

end CostCatalog
