import Mathlib
import RadixMap.Map.Dump
import RadixMap.Proofs.NodeCanonical

/-!
# The outline of a dump

What the lines of a dump say of the map, without its trie. The depth of a line tells which lines stand
below which, and so the slots on the way to each line; these are the digits of a number in base 32.
The values of the staging section take the place of the values below the target.
-/

namespace RadixMap.DumpLine

variable {V : Type}

/-- The depth of a line. The first line of a section has depth 0. -/
def depth : DumpLine V → Nat
  | node (some (depth, _)) _ _ => depth
  | value depth _ _ => depth
  | _ => 0

def isTitle : DumpLine V → Bool
  | stagingTitle => true
  | _ => false

def isMarked : DumpLine V → Bool
  | node _ _ isTarget => isTarget
  | _ => false

/-- How many of the lines after a line of the depth stand directly below it. -/
def countBelow (depth : Nat) (rest : List (DumpLine V)) : Nat :=
  (rest.takeWhile fun line => depth < line.depth).countP fun line => line.depth = depth + 1

/-- Every line of a node has the kind for the number of lines directly below it. -/
def KindsFit : List (DumpLine V) → Prop
  | [] => True
  | line :: rest =>
    (∀ place? kind isTarget, line = node place? kind isTarget →
      kind.Fits (countBelow line.depth rest)) ∧ KindsFit rest

/-- The slots on the way to a line, where `before` are those on the way to the line before it. -/
def path (before : List Slot) : DumpLine V → List Slot
  | node (some (depth, slot)) _ _ => before.take (depth - 1) ++ [slot]
  | value depth slot _ => before.take (depth - 1) ++ [slot]
  | _ => []

/-- The lines with the slots on the way to each. -/
def placed : List Slot → List (DumpLine V) → List (List Slot × DumpLine V)
  | _, [] => []
  | before, line :: rest => (line.path before, line) :: placed (line.path before) rest

/-- The slots on the way to each line with the mark of the target. -/
def targets (lines : List (DumpLine V)) : List (List Slot) :=
  ((placed [] lines).filter fun line => line.2.isMarked).map (·.1)

/-- The number with the slots as its digits in base 32. -/
def number (slots : List Slot) : Nat :=
  slots.foldl (fun number slot => 32 * number + slot.val) 0

/-- The values of the staging section, with the slots on the way to each. -/
def stagedValues (lines : List (DumpLine V)) : List (List Slot × V) :=
  (placed [] (lines.dropWhile fun line => !line.isTitle)).filterMap fun
    | (slots, value _ _ held) => some (slots, held)
    | _ => none

/-- The entries that a line shows. The target shows the staged values; those below it are hidden. -/
def entriesAt (staged : List (List Slot × V)) (targets : List (List Slot)) :
    List Slot × DumpLine V → List (Nat × V)
  | (slots, node _ _ true) => staged.map fun (below, held) => (number (slots ++ below), held)
  | (slots, value _ _ held) => if slots.dropLast ∈ targets then [] else [(number slots, held)]
  | _ => []

/-- The entries that a dump shows, line by line. -/
def entries (lines : List (DumpLine V)) : List (Nat × V) :=
  (placed [] (lines.takeWhile fun line => !line.isTitle)).flatMap
    (entriesAt (stagedValues lines) (targets lines))

theorem number_append (slots : List Slot) (slot : Slot) :
    number (slots ++ [slot]) = 32 * number slots + slot.val := by
  rw [number, List.foldl_append]
  rfl

end RadixMap.DumpLine
