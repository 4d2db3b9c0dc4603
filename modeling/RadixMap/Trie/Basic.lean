import RadixMap.Address
import RadixMap.Node.Basic

/-!
# Tries

Values at addresses. A leaf stands at level 0 and holds the values of one block; a branch stands at a
level above and holds, at each slot, the trie of the addresses that pass through it. Every operation
is told the level of the trie it works on.

Leaves are told apart as objects, not by what they hold: a write makes a leaf with a number of its
own, and two leaves that hold the same values are still two.
-/
namespace RadixMap

structure Leaf (V : Type) where
  /-- The number that the leaf got when it was made. -/
  serial : Nat
  node : Node V

/-- Whether two leaves are one and the same object. -/
def Leaf.same {V : Type} (left right : Leaf V) : Bool :=
  left.serial == right.serial

inductive Trie (V : Type)
  | leaf (held : Leaf V)
  | branch (node : Node (Trie V))

/-- A leaf to read in the place of another one, which a trie still has. -/
structure Overlay (V : Type) where
  target : Leaf V
  leaf : Leaf V

namespace Overlay

variable {V : Type}

/-- The leaf to read where a trie has `leaf`. -/
def resolve (overlay? : Option (Overlay V)) (leaf : Leaf V) : Leaf V :=
  match overlay? with
  | some overlay => if overlay.target.same leaf then overlay.leaf else leaf
  | none => leaf

end Overlay

namespace Trie

variable {V : Type}

def kind : Trie V → NodeKind
  | leaf held => held.node.kind
  | branch node => node.kind

/-- The leaf of the block of an address. -/
def leafAt? (address : Address) : Nat → Trie V → Checked (Option (Leaf V))
  | _, leaf held => .ok (some held)
  | 0, branch _ => .error .sunkenBranch
  | level + 1, branch node => do
    let slot ← address.slotAt (level + 1)
    match ← node.get? slot with
    | some child => leafAt? address level child
    | none => return none

/-- The value at an address. -/
def get? (address : Address) (level : Nat) (trie : Trie V) : Checked (Option V) := do
  match ← trie.leafAt? address level with
  | some held => held.node.get? (← address.slotAt 0)
  | none => return none

/-- The number of values. -/
def count : Nat → Trie V → Checked Nat
  | _, leaf held => .ok held.node.size
  | 0, branch _ => .error .sunkenBranch
  | level + 1, branch node => do
    let counts ← node.elements.mapM (count level)
    return counts.foldr (· + ·) 0

/-- The values with their addresses, slot by slot from the top, which is ascending order of
addresses. The addresses begin with the digits of `base`. -/
def entries (overlay? : Option (Overlay V)) : Nat → Address → Trie V → Checked (List (Address × V))
  | level, base, leaf held =>
    if level = 0 then
      .ok ((Overlay.resolve overlay? held).node.entries.map fun (slot, value) =>
        (base ||| UInt32.ofNat slot, value))
    else
      .error (.raisedLeaf level)
  | 0, _, branch _ => .error .sunkenBranch
  | level + 1, base, branch node => do
    let parts ← node.entries.mapM fun (slot, child) => do
      entries overlay? level (← base.extend (level + 1) slot) child
    return parts.flatten

/-- The child of a branch whose only occupied slot is slot 0. -/
def origin? : Trie V → Option (Trie V)
  | leaf _ => none
  | branch node => node.origin?

/-- A trie `levels` levels taller with the same values: each new branch holds what it raises at
slot 0. -/
def lift : Nat → Trie V → Trie V
  | 0, trie => trie
  | levels + 1, trie => branch (.one .origin (lift levels trie))

/-- The trie without the branches at its top that hold nothing but slot 0, and its level. -/
def collapse : Nat → Trie V → Nat × Trie V
  | 0, trie => (0, trie)
  | level + 1, trie =>
    match trie.origin? with
    | some child => collapse level child
    | none => (level + 1, trie)

end Trie

end RadixMap
