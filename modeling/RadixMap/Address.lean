import RadixMap.Fault

/-!
# Addresses

Keys read as unsigned words and cut into digits of five bits. The digit at a level is the slot
through which the address passes at that level of a trie; the two top bits are the digit at level 6.
A block is the set of the 32 addresses that differ in the digit at level 0 only.
-/
namespace RadixMap

abbrev Address := UInt32

namespace Address

def bitsPerLevel : Nat := 5
def branching : Nat := 32
def slotMask : UInt32 := 0x1F

/-- The highest level at which an address has a digit. -/
def maxLevel : Nat := 6

def ofKey (key : Int32) : Address :=
  key.toUInt32

def toKey (address : Address) : Int32 :=
  address.toInt32

/-- The word with every bit below its highest set bit set too. -/
def smear (address : Address) : Address :=
  let pairs := address ||| (address >>> 1)
  let nibbles := pairs ||| (pairs >>> 2)
  let bytes := nibbles ||| (nibbles >>> 4)
  let halves := bytes ||| (bytes >>> 8)
  halves ||| (halves >>> 16)

/-- The level of the highest set bit of a smeared word, at the five top bits of its product with
`0x07C4ACDD`. The five top bits tell the 32 smeared words apart; zero shares its place, and its
level, with one. -/
def smearedLevel : Vector Nat 32 :=
  #v[0, 1, 0, 2, 2, 4, 0, 5, 2, 2, 3, 3, 4, 5, 0, 6,
    1, 2, 4, 5, 3, 3, 4, 1, 3, 5, 4, 1, 5, 1, 0, 6]

/-- The least level from which a root reaches the address: the level of its highest digit that is
not zero. -/
def minLevel (address : Address) : Nat :=
  smearedLevel[Slot.ofTopBits (smear address * 0x07C4ACDD)]

/-- The position of the lowest bit of a level's digit. Levels are read as 32-bit words and the
position has to fit one too. -/
def shiftAt (level : Nat) : Checked Nat :=
  let shift := level % UInt32.size * bitsPerLevel
  if shift < UInt32.size then .ok shift else .error .multiplyOverflow

/-- The slot through which the address passes at a level. -/
def slotAt (address : Address) (level : Nat) : Checked Slot := do
  let shift ← shiftAt level
  if shift < 32 then
    .ok (.ofLowBits (address.toNat >>> shift))
  else
    .error .shiftRightOverflow

/-- The digits above a level, completed with the digit `slot` at that level. -/
def extend (base : Address) (level : Nat) (slot : Slot) : Checked Address := do
  let shift ← shiftAt level
  if shift < 32 then
    .ok (base ||| UInt32.ofNat (slot.val <<< shift))
  else
    .error .shiftLeftOverflow

/-- The block of an address, named by its last member. -/
def block (address : Address) : Address :=
  address ||| slotMask

/-- A key with its bit pattern and its digits, highest level first. -/
def describe (key : Int32) : Checked String := do
  let address := ofKey key
  let path ← (List.range (address.minLevel + 1)).reverse.mapM address.slotAt
  let digits := path.map fun slot => Numeral.text slot.val
  return String.ofList (Numeral.signed key.toInt) ++ " (" ++ Numeral.hexText address.toNat ++
    ") => " ++ ".".intercalate digits

end Address

end RadixMap
