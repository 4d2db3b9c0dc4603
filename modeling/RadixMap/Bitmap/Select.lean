import RadixMap.Fault

/-!
# Positions and indices in a bitmap

How many slots of a set lie below a position, which slot has a given index, and the slots of a set
one after another.
-/
namespace RadixMap

namespace Bitmap

/-- The number of slots of the set below any position; a word has no position past 31. -/
def countBelow (bits : Bitmap) (position : Nat) : Checked Nat :=
  if inside : position < 32 then
    .ok (bits.rank ⟨position, inside⟩)
  else
    .error .shiftLeftOverflow

/-- The slot that has `index` slots of the set below it. -/
def select (bits : Bitmap) (index : Nat) : Checked Slot :=
  if index < bits.count then
    .ok (lowest (index.repeat dropLowest bits))
  else
    .error (.noSuchBit bits index)

end Bitmap

/-- The slots of a set that have not been taken yet, lowest first. -/
structure SlotCursor where
  remaining : Bitmap
  deriving DecidableEq, Repr

namespace SlotCursor

def next? (cursor : SlotCursor) : Option (Slot × SlotCursor) :=
  if cursor.remaining = 0 then
    none
  else
    some (cursor.remaining.lowest, ⟨cursor.remaining.dropLowest⟩)

/-- The number of slots still to come. -/
def length (cursor : SlotCursor) : Nat :=
  cursor.remaining.count

/-- Bounds on the number of slots still to come, below and above. -/
def sizeBounds (cursor : SlotCursor) : Nat × Option Nat :=
  (cursor.length, some cursor.length)

/-- At most `limit` slots, in the order in which `next?` gives them. -/
def take : Nat → SlotCursor → List Slot
  | 0, _ => []
  | limit + 1, cursor =>
    match cursor.next? with
    | none => []
    | some (slot, rest) => slot :: take limit rest

/-- All slots still to come: a word has no more than 32. -/
def toList (cursor : SlotCursor) : List Slot :=
  take 32 cursor

end SlotCursor

end RadixMap
