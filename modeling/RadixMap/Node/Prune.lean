import RadixMap.Node.Basic

/-!
# Pruning a node

Removal of many elements at once, by a test that may remember what it has seen. A node of which
nothing was removed is kept as it stands.
-/
namespace RadixMap

/-- What pruning leaves of a thing: the thing itself, a smaller one, or nothing. -/
inductive Pruned (α : Type)
  | kept
  | cut (rest : α)
  | gone
  deriving DecidableEq, Repr

namespace Pruned

variable {α β : Type}

/-- What is left, of a thing that was `whole`. -/
def remains? (whole : α) : Pruned α → Option α
  | kept => some whole
  | cut rest => some rest
  | gone => none

def isKept : Pruned α → Bool
  | kept => true
  | _ => false

def map (f : α → β) : Pruned α → Pruned β
  | kept => kept
  | cut rest => cut (f rest)
  | gone => gone

end Pruned

namespace Node

variable {E σ : Type}

/-- A removal over some entries of a node: what is left of them, and whether that is all of them
unchanged. -/
structure Survivors (E : Type) where
  entries : List (Slot × E)
  unchanged : Bool

/-- Prunes entries one after another, each with the state that the one before it left. -/
def pruneEntries (prune : E → σ → Checked (Pruned E × σ)) :
    List (Slot × E) → σ → Checked (Survivors E × σ)
  | [], state => .ok (⟨[], true⟩, state)
  | (slot, element) :: rest, state => do
    let (verdict, state) ← prune element state
    let (survivors, state) ← pruneEntries prune rest state
    let entries := ((verdict.remains? element).map (slot, ·)).toList ++ survivors.entries
    return (⟨entries, verdict.isKept && survivors.unchanged⟩, state)

/-- The set of the slots of some entries. -/
def slotSet (entries : List (Slot × E)) : Bitmap :=
  entries.foldl (fun bits entry => bits ||| Bitmap.single entry.1) 0

/-- Prunes every element of a node, in slot order. -/
def prune (prune : E → σ → Checked (Pruned E × σ)) (node : Node E) (state : σ) :
    Checked (Pruned (Node E) × σ) := do
  let (survivors, state) ← pruneEntries prune node.entries state
  if survivors.unchanged then
    return (.kept, state)
  match ← ofSurvivors (slotSet survivors.entries) (survivors.entries.map (·.2)) with
  | some rest => return (.cut rest, state)
  | none => return (.gone, state)

/-- Removes the elements for which the test holds. The test sees each element once, in slot
order, with the state that its last call left. -/
def removeAll (test : E → σ → Bool × σ) (node : Node E) (state : σ) :
    Checked (Pruned (Node E) × σ) :=
  node.prune
    (fun element state =>
      let (remove, state) := test element state
      .ok (if remove then .gone else .kept, state))
    state

end Node

end RadixMap
