import RadixMap.Map.Basic

/-!
# Dumps

The trie of a map line by line, with the leaf of the staged block marked as the target, and the staged
leaf after it. The trie is shown as it is linked, so below the target stand the values from before the
writes that only the staged leaf has.
-/
namespace RadixMap

inductive DumpLine (V : Type)
  | empty
  | stagingTitle
  /-- A node; all but a root stand at a depth below the root and at a slot. -/
  | node (place? : Option (Nat × Slot)) (kind : NodeKind) (isTarget : Bool)
  | value (depth : Nat) (slot : Slot) (value : V)
  deriving DecidableEq

namespace DumpLine

variable {V : Type}

/-- Four columns for each level of depth, then the slot. -/
def margin (depth : Nat) (slot : Slot) : String :=
  String.ofList (List.replicate (4 * depth) ' ') ++ Numeral.column 2 slot ++ ": "

def text (display : V → String) : DumpLine V → String
  | empty => "empty"
  | stagingTitle => "--------------- staging"
  | node place? kind isTarget =>
    (match place? with
      | some (depth, slot) => margin depth slot
      | none => "") ++
    kind.name ++ (if isTarget then " (target)" else "")
  | value depth slot held => margin depth slot ++ "value=" ++ display held

end DumpLine

namespace Trie

variable {V : Type}

/-- Whether this is the given leaf. -/
def isTarget (target? : Option (Leaf V)) : Trie V → Bool
  | leaf held => target?.any fun target => target.same held
  | branch _ => false

/-- The lines below the line of a node at `depth - 1`. -/
def dump (target? : Option (Leaf V)) : Nat → Nat → Trie V → Checked (List (DumpLine V))
  | _, depth, leaf held =>
    .ok (held.node.entries.map fun (slot, value) => .value depth slot value)
  | 0, _, branch _ => .error .sunkenBranch
  | level + 1, depth, branch node => do
    let parts ← node.entries.mapM fun (slot, child) => do
      let lines ← dump target? level (depth + 1) child
      return .node (some (depth, slot)) child.kind (child.isTarget target?) :: lines
    return parts.flatten

end Trie

namespace IntMap

variable {V : Type}

/-- The lines of the trie. -/
def dumpTrie (map : IntMap V) : Checked (List (DumpLine V)) := do
  let target? := map.staging.map Staging.target
  match map.root with
  | some root =>
    let lines ← root.dump target? map.rootLevel 1
    return .node none root.kind (root.isTarget target?) :: lines
  | none => return [.empty]

/-- The lines of the staged leaf. -/
def dumpStaging (map : IntMap V) : List (DumpLine V) :=
  match map.staging with
  | some staging =>
    .stagingTitle :: .node none staging.leaf.node.kind false ::
      staging.leaf.node.entries.map fun (slot, value) => .value 1 slot value
  | none => []

def dump (map : IntMap V) : Checked (List (DumpLine V)) := do
  return (← map.dumpTrie) ++ map.dumpStaging

/-- The dump as text, each line closed by a line feed. -/
def tree (map : IntMap V) (display : V → String) : Checked String := do
  return String.join ((← map.dump).map fun line => line.text display ++ "\n")

end IntMap

end RadixMap
