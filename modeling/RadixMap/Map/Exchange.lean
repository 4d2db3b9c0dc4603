import RadixMap.Map.Write

/-!
# Exchange with other formats

A map is handed to a writer entry by entry, in ascending order of the keys, and taken from a reader
entry by entry, each inserted when it was read. What the entries look like is left to the format.
-/
namespace RadixMap

/-- A format that maps are written in. -/
structure MapWriter (V Output Error : Type) where
  State : Type
  /-- Opens a map. The number of its entries is told if it is known. -/
  start : Option Nat → Except Error State
  entry : State → Int32 → V → Except Error State
  /-- Closes the map after its last entry. -/
  finish : State → Except Error Output

/-- Writes a map of the given entries. -/
def MapWriter.writeAll {V Output Error : Type} (writer : MapWriter V Output Error)
    (entries : List (Int32 × V)) : Except Error Output := do
  let opened ← writer.start (some entries.length)
  let written ← entries.foldlM (fun state (key, value) => writer.entry state key value) opened
  writer.finish written

/-- A format that maps are read from. -/
structure MapReader (Input V Error : Type) where
  State : Type
  /-- Opens the map that the input should be; the words say what is expected. -/
  start : Input → String → Except Error State
  /-- The next entry, or nothing after the last. -/
  next : State → Except Error (Option ((Int32 × V) × State))
  /-- Closes the input after the last entry of the map. -/
  finish : State → Except Error Unit
  /-- No more entries than this are still to come. -/
  limit : State → Nat
  limit_next : ∀ {state rest : State} {entry : Int32 × V},
    next state = .ok (some (entry, rest)) → limit rest < limit state

/-- What came of reading a map: the map or an error, and the events of the insertions up to there. -/
structure Reading (V Error : Type) where
  result : Except Error (IntMap V)
  journal : List Event

namespace IntMap

variable {V Input Output Error : Type}

def serialize (map : IntMap V) (writer : MapWriter V Output Error) :
    Checked (Except Error Output) := do
  return writer.writeAll (← map.sortedEntries)

/-- What a reader is told to expect. -/
def expecting : String :=
  "a map with integer keys"

/-- Inserts the entries that a reader gives, up to the last one or to the first error. -/
def visit (reader : MapReader Input V Error) (revision : Revision V) (state : reader.State) :
    Checked (Revision V × Except Error reader.State) :=
  match _hnext : reader.next state with
  | .ok (some ((key, value), rest)) => do
    let revision ← revision.andThen fun map => map.insert key value
    visit reader revision rest
  | .ok none => .ok (revision, .ok state)
  | .error error => .ok (revision, .error error)
termination_by reader.limit state
decreasing_by exact reader.limit_next _hnext

def deserialize (reader : MapReader Input V Error) (input : Input) : Checked (Reading V Error) :=
  match reader.start input expecting with
  | .ok opened => do
    let (revision, ending) ← visit reader ⟨empty, []⟩ opened
    return ⟨(fun _ => revision.map) <$> (ending >>= reader.finish), revision.journal⟩
  | .error error => .ok ⟨.error error, []⟩

end IntMap

end RadixMap
