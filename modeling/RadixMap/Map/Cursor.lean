import RadixMap.Map.Basic

/-!
# Cursors

The values of a map one at a time, in the order of `entries`. A cursor holds the values that are left
of one leaf and, for each branch that it is in, the children that it has not entered yet.
-/
namespace RadixMap

structure Cursor (V : Type) where
  /-- What is left of each branch, the branch that was entered last first. -/
  branches : List (List (Slot × Trie V))
  values : List V
  overlay? : Option (Overlay V)
  /-- The number of values still to come. -/
  remaining : Nat

namespace Trie

variable {V : Type}

mutual

/-- What it takes to go through a trie. A child weighs more than the frame that a cursor makes of it
on entering. -/
def weight : Trie V → Nat
  | leaf _ => 1
  | branch node => nodeWeight node + 2

def nodeWeight : Node (Trie V) → Nat
  | .one _ child => child.weight
  | .bitmap _ children => listWeight children
  | .full children => listWeight children

def listWeight : List (Trie V) → Nat
  | [] => 0
  | child :: rest => child.weight + listWeight rest

end

theorem weight_pos (trie : Trie V) : 0 < trie.weight := by
  cases trie <;> simp [weight]

theorem nodeWeight_eq (node : Node (Trie V)) : nodeWeight node = listWeight node.elements := by
  cases node <;> simp [nodeWeight, listWeight, Node.elements]

/-- The weight of the children that a frame holds. -/
def frameWeight (frame : List (Slot × Trie V)) : Nat :=
  listWeight (frame.map (·.2))

theorem listWeight_map_snd_zip_le (slots : List Slot) (children : List (Trie V)) :
    frameWeight (slots.zip children) ≤ listWeight children := by
  induction slots generalizing children with
  | nil => exact Nat.zero_le _
  | cons slot slots ih =>
      cases children with
      | nil => exact Nat.le_refl _
      | cons child children => exact Nat.add_le_add_left (ih children) _

end Trie

namespace Cursor

variable {V : Type}

/-- The work that is left in the branches of a cursor. -/
def weight : List (List (Slot × Trie V)) → Nat
  | [] => 0
  | frame :: outer => Trie.frameWeight frame + 1 + weight outer

/-- Goes on with a child: with the values of a leaf, or with the children of a branch. A trie has no
more than six levels of branches. -/
def enter (cursor : Cursor V) : Trie V → Checked (Cursor V)
  | .leaf held => .ok { cursor with values := (Overlay.resolve cursor.overlay? held).node.elements }
  | .branch node =>
    if cursor.branches.length < Address.maxLevel then
      .ok { cursor with branches := node.entries :: cursor.branches }
    else
      .error .cursorOverflow

theorem weight_enter {cursor entered : Cursor V} {child : Trie V}
    (hentered : cursor.enter child = .ok entered) :
    weight entered.branches < weight cursor.branches + child.weight := by
  cases child with
  | leaf held =>
      cases hentered
      exact Nat.lt_add_of_pos_right (Trie.weight_pos _)
  | branch node =>
      rw [enter] at hentered
      split at hentered
      · cases hentered
        have hframe : Trie.frameWeight node.entries ≤ Trie.nodeWeight node :=
          Trie.nodeWeight_eq node ▸ Trie.listWeight_map_snd_zip_le _ node.elements
        simp only [weight, Trie.weight]
        omega
      · cases hentered

theorem weight_frame_enter {slot : Slot} {child : Trie V} {rest : List (Slot × Trie V)}
    {outer : List (List (Slot × Trie V))} {values : List V} {overlay? : Option (Overlay V)}
    {remaining : Nat} {entered : Cursor V}
    (hentered : enter ⟨rest :: outer, values, overlay?, remaining⟩ child = .ok entered) :
    weight entered.branches < weight (((slot, child) :: rest) :: outer) := by
  have hless := weight_enter hentered
  simp only [weight, Trie.frameWeight, List.map_cons, Trie.listWeight] at hless ⊢
  omega

/-- The next value; none, as often as it is asked for, after the last. -/
def next (cursor : Cursor V) : Checked (Option V × Cursor V) :=
  match cursor.values with
  | value :: values =>
    .ok (some value, { cursor with values, remaining := cursor.remaining - 1 })
  | [] =>
    match _hbranches : cursor.branches with
    | [] => .ok (none, cursor)
    | [] :: outer => next { cursor with branches := outer }
    | ((_, child) :: rest) :: outer =>
      match _hentered : enter { cursor with branches := rest :: outer } child with
      | .ok entered => next entered
      | .error fault => .error fault
termination_by weight cursor.branches
decreasing_by
  · simp [_hbranches, weight]
  · rw [_hbranches]
    exact weight_frame_enter _hentered

section Next

variable {overlay? : Option (Overlay V)} {remaining : Nat} {outer : List (List (Slot × Trie V))}

theorem next_cons (branches : List (List (Slot × Trie V))) (value : V) (values : List V) :
    next ⟨branches, value :: values, overlay?, remaining⟩ =
      .ok (some value, ⟨branches, values, overlay?, remaining - 1⟩) := by
  rw [next]

theorem next_end : next (⟨[], [], overlay?, remaining⟩ : Cursor V) =
    .ok (none, ⟨[], [], overlay?, remaining⟩) := by
  rw [next]

theorem next_pop : next ⟨[] :: outer, [], overlay?, remaining⟩ =
    next ⟨outer, [], overlay?, remaining⟩ := by
  rw [next]

theorem next_enter (slot : Slot) (child : Trie V) (rest : List (Slot × Trie V)) :
    next ⟨((slot, child) :: rest) :: outer, [], overlay?, remaining⟩ =
      enter ⟨rest :: outer, [], overlay?, remaining⟩ child >>= next := by
  rw [next]
  change (match _hentered : enter ⟨rest :: outer, [], overlay?, remaining⟩ child with
    | .ok entered => next entered
    | .error fault => .error fault) = _
  split
  case h_1 entered hentered => rw [hentered]; rfl
  case h_2 fault hentered => rw [hentered]; rfl

end Next

/-- What holds of a cursor if it holds of the one after a round without a value, and where there is a
value at hand or no branch left, holds of every cursor. -/
@[elab_as_elim]
theorem inductionOnRounds {motive : Cursor V → Prop}
    (cons : ∀ branches value values overlay? remaining,
      motive ⟨branches, value :: values, overlay?, remaining⟩)
    (done : ∀ overlay? remaining, motive ⟨[], [], overlay?, remaining⟩)
    (pop : ∀ outer overlay? remaining, motive ⟨outer, [], overlay?, remaining⟩ →
      motive ⟨[] :: outer, [], overlay?, remaining⟩)
    (enter : ∀ slot child rest outer overlay? remaining,
      (∀ entered, enter ⟨rest :: outer, [], overlay?, remaining⟩ child = .ok entered →
        motive entered) →
      motive ⟨((slot, child) :: rest) :: outer, [], overlay?, remaining⟩)
    (cursor : Cursor V) : motive cursor := by
  induction cursor using next.induct with
  | case1 cursor value values hvalues => cases cursor; cases hvalues; exact cons ..
  | case2 cursor hvalues hbranches => cases cursor; cases hvalues; cases hbranches; exact done ..
  | case3 cursor hvalues outer hbranches ih =>
      cases cursor; cases hvalues; cases hbranches
      exact pop _ _ _ ih
  | case4 cursor hvalues slot child rest outer hbranches entered hentered ih =>
      cases cursor; cases hvalues; cases hbranches
      refine enter _ _ _ _ _ _ fun other hother => ?_
      rw [hentered] at hother
      cases hother
      exact ih
  | case5 cursor hvalues slot child rest outer hbranches fault hentered =>
      cases cursor; cases hvalues; cases hbranches
      refine enter _ _ _ _ _ _ fun other hother => ?_
      rw [hentered] at hother
      cases hother

theorem weight_next_le {cursor rest : Cursor V} {value? : Option V}
    (hnext : cursor.next = .ok (value?, rest)) : weight rest.branches ≤ weight cursor.branches := by
  induction cursor using inductionOnRounds with
  | cons => rw [next_cons] at hnext; cases hnext; exact Nat.le_refl _
  | done => rw [next_end] at hnext; cases hnext; exact Nat.le_refl _
  | pop outer overlay? remaining ih =>
      rw [next_pop] at hnext
      exact Nat.le_trans (ih hnext) (by simp [weight])
  | enter slot child frame outer overlay? remaining ih =>
      rw [next_enter] at hnext
      cases hentered : enter ⟨frame :: outer, [], overlay?, remaining⟩ child with
      | error fault => rw [hentered] at hnext; cases hnext
      | ok entered =>
          rw [hentered] at hnext
          exact Nat.le_trans (ih entered hentered hnext) (Nat.le_of_lt (weight_frame_enter hentered))

/-- A call that gives a value takes it from the leaf at hand or takes weight off the branches. -/
theorem next_shorter {cursor rest : Cursor V} {value : V}
    (hnext : cursor.next = .ok (some value, rest)) :
    Prod.Lex (· < ·) (· < ·) (weight rest.branches, rest.values.length)
      (weight cursor.branches, cursor.values.length) := by
  cases cursor using inductionOnRounds with
  | cons =>
      rw [next_cons] at hnext
      cases hnext
      exact .right _ (Nat.lt_succ_self _)
  | done => rw [next_end] at hnext; cases hnext
  | pop outer =>
      rw [next_pop] at hnext
      exact .left _ _ (Nat.lt_of_le_of_lt (weight_next_le hnext) (by simp [weight]))
  | enter slot child frame outer overlay? remaining =>
      rw [next_enter] at hnext
      cases hentered : enter ⟨frame :: outer, [], overlay?, remaining⟩ child with
      | error fault => rw [hentered] at hnext; cases hnext
      | ok entered =>
          rw [hentered] at hnext
          exact .left _ _ (Nat.lt_of_le_of_lt (weight_next_le hnext) (weight_frame_enter hentered))

/-- Calls `next` until it gives nothing; the values that it gave so far are `taken`, the last one
first. -/
def drain (taken : List V) (cursor : Cursor V) : Checked (List V) :=
  match _hnext : cursor.next with
  | .ok (some value, rest) => drain (value :: taken) rest
  | .ok (none, _) => .ok taken.reverse
  | .error fault => .error fault
termination_by (weight cursor.branches, cursor.values.length)
decreasing_by exact next_shorter _hnext

theorem drain_eq (taken : List V) (cursor : Cursor V) :
    drain taken cursor =
      match cursor.next with
      | .ok (some value, rest) => drain (value :: taken) rest
      | .ok (none, _) => .ok taken.reverse
      | .error fault => .error fault := by
  rw [drain]
  split <;> rename_i hnext <;> rw [hnext]

theorem drain_of_some {cursor rest : Cursor V} {value : V}
    (hnext : cursor.next = .ok (some value, rest)) (taken : List V) :
    drain taken cursor = drain (value :: taken) rest := by
  rw [drain_eq, hnext]

theorem drain_of_none {cursor rest : Cursor V} (hnext : cursor.next = .ok (none, rest))
    (taken : List V) : drain taken cursor = .ok taken.reverse := by
  rw [drain_eq, hnext]

/-- All values still to come. -/
def toList (cursor : Cursor V) : Checked (List V) :=
  drain [] cursor

/-- Bounds on the number of values still to come, below and above. -/
def sizeBounds (cursor : Cursor V) : Nat × Option Nat :=
  (cursor.remaining, some cursor.remaining)

end Cursor

namespace IntMap

variable {V : Type}

/-- A cursor before the first value. -/
def cursor (map : IntMap V) : Checked (Cursor V) :=
  let cursor : Cursor V := ⟨[], [], map.overlay?, map.size⟩
  match map.root with
  | some root => cursor.enter root
  | none => .ok cursor

/-- The values in the order of `entries`. -/
def values (map : IntMap V) : Checked (List V) := do
  (← map.cursor).toList

end IntMap

end RadixMap
