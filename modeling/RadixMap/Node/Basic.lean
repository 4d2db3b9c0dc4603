import RadixMap.Bitmap.Select

/-!
# Nodes

Finite maps from slots to elements that are never empty. A node with one element keeps its slot, a
node with 2 to 31 keeps a bitmap beside the list of its elements in slot order, and a full node keeps
the list alone. Every operation returns the form that fits the number of elements.
-/
namespace RadixMap

inductive Node (E : Type)
  | one (slot : Slot) (element : E)
  | bitmap (bits : Bitmap) (elements : List E)
  | full (elements : List E)
  deriving DecidableEq

/-- The form in which a node keeps its elements. -/
inductive NodeKind
  | one
  | bitmap
  | full
  deriving DecidableEq, Repr

def NodeKind.name : NodeKind → String
  | one => "OneNode"
  | bitmap => "BitmapNode"
  | full => "FullNode"

namespace Node

variable {E : Type}

def kind : Node E → NodeKind
  | one _ _ => .one
  | bitmap _ _ => .bitmap
  | full _ => .full

def size : Node E → Nat
  | one _ _ => 1
  | bitmap _ elements => elements.length
  | full _ => 32

/-- The set of the slots that hold an element. -/
def occupancy : Node E → Bitmap
  | one slot _ => .single slot
  | bitmap bits _ => bits
  | full _ => .all

/-- The elements in slot order. -/
def elements : Node E → List E
  | one _ element => [element]
  | bitmap _ elements => elements
  | full elements => elements

/-- The elements with their slots, in slot order. -/
def entries (node : Node E) : List (Slot × E) :=
  (SlotCursor.toList ⟨node.occupancy⟩).zip node.elements

/-- Where the element of a slot stands among the elements. -/
def index? : Node E → Slot → Option Nat
  | one occupied _, slot => if occupied = slot then some 0 else none
  | bitmap bits _, slot => if bits.contains slot then some (bits.rank slot) else none
  | full _, slot => some slot.val

/-- The element at an index that the occupancy promises. -/
def elementAt (node : Node E) (index : Nat) : Checked E :=
  match node.elements[index]? with
  | some element => .ok element
  | none => .error (.indexOutOfRange index node.elements.length)

def get? (node : Node E) (slot : Slot) : Checked (Option E) :=
  match node.index? slot with
  | some index => some <$> node.elementAt index
  | none => .ok none

/-- The index of an occupied slot. -/
def indexOf (node : Node E) (slot : Slot) : Checked Nat :=
  match node.index? slot with
  | some index => (fun _ => index) <$> node.elementAt index
  | none => .error (.slotFree slot)

/-- The element of a node whose only occupied slot is slot 0. -/
def origin? : Node E → Option E
  | one slot element => if slot = .origin then some element else none
  | _ => none

/-- The node with the given elements in place of its own, slot by slot. -/
def withElements : Node E → List E → Node E
  | one slot element, replaced => one slot (replaced.headD element)
  | bitmap bits _, replaced => bitmap bits replaced
  | full _, replaced => full replaced

/-- The node of at least two elements whose slots are those of `bits`, in ascending order. -/
def ofMany (bits : Bitmap) (elements : List E) : Node E :=
  if elements.length = 32 then full elements else bitmap bits elements

/-- The node whose slots are those of `bits` in ascending order; there is none without elements. -/
def ofElements? (bits : Bitmap) : List E → Option (Node E)
  | [] => none
  | [element] => some (one bits.lowest element)
  | elements => some (ofMany bits elements)

/-- The node with an element more, at a slot that it does not occupy. -/
def join (node : Node E) (slot : Slot) (element : E) : Checked (Node E) :=
  match node with
  | one occupied existing =>
    let elements := if slot < occupied then [element, existing] else [existing, element]
    .ok (bitmap (.single occupied ||| .single slot) elements)
  | bitmap bits elements =>
    let index := bits.rank slot
    if index ≤ elements.length then
      .ok (ofMany (bits ||| .single slot) (elements.insertIdx index element))
    else
      .error (.indexOutOfRange index elements.length)
  | full _ => .error (.slotOccupied slot)

/-- Puts an element at a free slot. -/
def add (node : Node E) (slot : Slot) (element : E) : Checked (Node E) := do
  match ← node.get? slot with
  | some _ => throw (.slotOccupied slot)
  | none => node.join slot element

/-- Puts another element at an occupied slot. -/
def replace (node : Node E) (slot : Slot) (element : E) : Checked (Node E) := do
  let index ← node.indexOf slot
  return node.withElements (node.elements.set index element)

/-- Puts an element at a slot, free or occupied, and tells whether the slot was free. -/
def put (node : Node E) (slot : Slot) (element : E) : Checked (Node E × Bool) := do
  match ← node.get? slot with
  | some _ => return (← node.replace slot element, false)
  | none => return (← node.add slot element, true)

/-- Frees an occupied slot; nothing is left of a node with one element. -/
def remove (node : Node E) (slot : Slot) : Checked (Option (Node E)) := do
  let index ← node.indexOf slot
  return ofElements? (node.occupancy ^^^ .single slot) (node.elements.eraseIdx index)

/-- Gives an occupied slot another element, or frees it when there is none. -/
def update (node : Node E) (slot : Slot) : Option E → Checked (Option (Node E))
  | some element => some <$> node.replace slot element
  | none => node.remove slot

/-- The element at a slot, with the node as a function of what stands there. -/
def focus? (node : Node E) (slot : Slot) : Checked (Option (E × (E → Node E))) := do
  match node with
  | one occupied element =>
    return if occupied = slot then some (element, one occupied) else none
  | bitmap bits elements =>
    if bits.contains slot then
      let index := bits.rank slot
      return some (← node.elementAt index, fun element => bitmap bits (elements.set index element))
    else
      return none
  | full elements =>
    return some (← node.elementAt slot, fun element => full (elements.set slot element))

/-- Fills the place of an occupied slot. -/
def set (node : Node E) (slot : Slot) (element : E) : Checked (Node E) := do
  match ← node.focus? slot with
  | some (_, fill) => return fill element
  | none => throw (.slotFree slot)

/-- The node that holds the survivors of a removal: one value for each slot of `bits`, in ascending
order. -/
def ofSurvivors (bits : Bitmap) (values : List E) : Checked (Option (Node E)) :=
  if bits.count = values.length then
    .ok (ofElements? bits values)
  else
    .error (.survivorCount bits.count values.length)

end Node

end RadixMap
