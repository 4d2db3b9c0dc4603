import RadixMap.Bitmap.Basic
import RadixMap.Numeral

/-!
# Faults

The checks of this library, each named for the condition that it found broken. A checked computation
either returns a value or stops at the first fault.
-/
namespace RadixMap

inductive Fault
  /-- A slot that should be free holds an element. -/
  | slotOccupied (slot : Slot)
  /-- A slot that should hold an element is free. -/
  | slotFree (slot : Slot)
  /-- A bitmap of `bits` slots came with another number of values. -/
  | survivorCount (bits values : Nat)
  /-- A set of slots has no member with this index. -/
  | noSuchBit (bits : Bitmap) (index : Nat)
  /-- A list of elements is shorter than the set of slots that it belongs to. -/
  | indexOutOfRange (index length : Nat)
  /-- A bit was moved up by as many places as a word has, or more. -/
  | shiftLeftOverflow
  /-- A bit was moved down by as many places as a word has, or more. -/
  | shiftRightOverflow
  /-- The position of a digit does not fit a word. -/
  | multiplyOverflow
  /-- A value was taken from a map that counts none. -/
  | sizeUnderflow
  /-- A branch stands at level 0, with no level below it for its children. -/
  | sunkenBranch
  /-- A leaf stands above level 0. -/
  | raisedLeaf (level : Nat)
  /-- The path of the staged block does not end at the target. -/
  | stagingUnlinked
  /-- The paths of a key and of the staged block do not part inside the trie. -/
  | noParting (key block : UInt32) (level : Nat)
  /-- A node holds no element. -/
  | emptyNode
  /-- A cursor holds more branches than a trie has levels above its leaves. -/
  | cursorOverflow
  deriving DecidableEq, Repr

namespace Fault

open Numeral in
def message : Fault → String
  | slotOccupied slot => "slot " ++ text slot ++ " is already occupied"
  | slotFree slot => "slot " ++ text slot ++ " is not occupied"
  | survivorCount bits values =>
    "assertion `left == right` failed\n  left: " ++ text bits ++ "\n right: " ++ text values
  | noSuchBit bits index =>
    "bitmap 0b" ++ String.ofList (binary 32 bits.toNat) ++ " has no set bit with index " ++ text index
  | indexOutOfRange index length =>
    "index out of bounds: the len is " ++ text length ++ " but the index is " ++ text index
  | shiftLeftOverflow => "attempt to shift left with overflow"
  | shiftRightOverflow => "attempt to shift right with overflow"
  | multiplyOverflow => "attempt to multiply with overflow"
  | sizeUnderflow => "attempt to subtract with overflow"
  | sunkenBranch => "attempt to subtract with overflow"
  | raisedLeaf level => "assertion `left == right` failed\n  left: " ++ text level ++ "\n right: 0"
  | stagingUnlinked => "staging target is not linked into the trie"
  | noParting key block level =>
    "keys " ++ hexText key.toNat ++ " and " ++ hexText block.toNat ++
      " cannot part at level " ++ text level
  | emptyNode => "a node holds no element"
  | cursorOverflow => "a cursor holds too many branches"

end Fault

/-- A computation that stops at the first check that fails. -/
abbrev Checked := Except Fault

end RadixMap
