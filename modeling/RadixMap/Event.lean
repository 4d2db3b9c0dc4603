import RadixMap.Address

/-!
# Events

The changes of shape that a write makes to a map, as its journal records them.
-/
namespace RadixMap

inductive Event
  /-- The root rose so that `key` came within reach. -/
  | grew (fromLevel toLevel : Nat) (key : Address)
  /-- The staged block went into the whole trie. -/
  | mergedIntoRoot (block : Address) (level : Nat)
  /-- The staged block went into a trie just rebuilt along the path of `key`. -/
  | mergedBeside (block : Address) (level : Nat) (key : Address)
  /-- The root sank, since its top held nothing but slot 0. -/
  | collapsed (fromLevel toLevel : Nat)
  | bulkKept (kept total : Nat)
  | bulkDropped (total : Nat)
  deriving DecidableEq, Repr

inductive Severity
  | trace
  | debug
  deriving DecidableEq, Repr

def Severity.name : Severity → String
  | trace => "TRACE"
  | debug => "DEBUG"

namespace Event

def severity : Event → Severity
  | bulkKept _ _ => .debug
  | bulkDropped _ => .debug
  | _ => .trace

open Numeral in
def message : Event → String
  | grew fromLevel toLevel key =>
    "growing trie from level " ++ text fromLevel ++ " to " ++ text toLevel ++
      " for key " ++ hexText key.toNat
  | mergedIntoRoot block level =>
    "merging staging block " ++ hexText block.toNat ++ " into root at level " ++ text level
  | mergedBeside block level key =>
    "merging staging block " ++ hexText block.toNat ++ " at level " ++ text level ++
      " while writing " ++ hexText key.toNat
  | collapsed fromLevel toLevel =>
    "collapsed root from level " ++ text fromLevel ++ " to " ++ text toLevel
  | bulkKept kept total =>
    "bulk removal kept " ++ text kept ++ " of " ++ text total ++ " values"
  | bulkDropped total => "bulk removal dropped all " ++ text total ++ " values"

/-- The event as a line of the journal. -/
def line (event : Event) : String :=
  event.severity.name ++ " " ++ event.message

end Event

end RadixMap
