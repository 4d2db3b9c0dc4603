/-!
# Bitmaps

Sets of the 32 slots of a node, one bit for each slot.
-/
namespace RadixMap

/-- One of the 32 places of a node. -/
abbrev Slot := Fin 32

def Slot.origin : Slot :=
  ⟨0, by decide⟩

/-- The slot that the five low bits of a number name. -/
def Slot.ofLowBits (n : Nat) : Slot :=
  ⟨n % 32, Nat.mod_lt n (by decide)⟩

/-- A set of slots, which holds `slot` when the bit at that position is set. -/
abbrev Bitmap := UInt32

/-- The slot that the five top bits of a word name. -/
def Slot.ofTopBits (word : UInt32) : Slot :=
  ofLowBits (word.toNat >>> 27)

namespace Bitmap

def all : Bitmap := 0xFFFFFFFF

def single (slot : Slot) : Bitmap :=
  UInt32.ofNat (1 <<< slot.val)

def contains (bits : Bitmap) (slot : Slot) : Bool :=
  bits.toNat.testBit slot.val

/-- How many bits of each word of four bits are set. -/
def nibbleCount : Vector Nat 16 :=
  #v[0, 1, 1, 2, 1, 2, 2, 3, 1, 2, 2, 3, 2, 3, 3, 4]

/-- How many of the four slots from `4 * index` on the set holds. -/
def countNibble (bits : Bitmap) (index : Nat) : Nat :=
  nibbleCount.get ⟨bits.toNat >>> (4 * index) % 16, Nat.mod_lt _ (by decide)⟩

/-- The number of slots of the set. -/
def count (bits : Bitmap) : Nat :=
  bits.countNibble 0 + bits.countNibble 1 + bits.countNibble 2 + bits.countNibble 3 +
    bits.countNibble 4 + bits.countNibble 5 + bits.countNibble 6 + bits.countNibble 7

/-- The number of slots of the set below `slot`: where the element of `slot` stands in a list that
holds one element for each slot of the set, in slot order. -/
def rank (bits : Bitmap) (slot : Slot) : Nat :=
  count (bits &&& (single slot - 1))

/-- The position of an isolated bit, at the five top bits of its product with `0x077CB531`. The
five top bits differ for the 32 isolated bits, since that product shifts a De Bruijn sequence. -/
def isolatedPosition : Vector Slot 32 :=
  #v[0, 1, 28, 2, 29, 14, 24, 3, 30, 22, 20, 15, 25, 17, 4, 8,
    31, 27, 13, 23, 21, 19, 16, 7, 26, 12, 18, 6, 11, 5, 10, 9]

/-- The least slot of a set that is not empty. -/
def lowest (bits : Bitmap) : Slot :=
  isolatedPosition[Slot.ofTopBits ((bits &&& -bits) * 0x077CB531)]

/-- The set without its least slot. -/
def dropLowest (bits : Bitmap) : Bitmap :=
  bits &&& (bits - 1)

end Bitmap

end RadixMap
