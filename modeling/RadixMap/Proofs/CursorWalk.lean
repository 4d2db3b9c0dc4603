import Mathlib
import RadixMap.Map.Cursor
import RadixMap.Proofs.Traversal

/-!
# The walk of a cursor

What a cursor holds is a trie with the part taken away that was already visited: the values left of
one leaf, and for each branch on the way to it the children that come after. Every call of `next`
takes the first value of what is left. The levels of the branches rise along the stack, so a cursor
never holds more of them than a trie has levels above its leaves.
-/

namespace RadixMap

open Address

variable {V : Type}

namespace Cursor

/-- The branches of a cursor still hold some values, in this order. Each branch stands above the one
that was entered after it, and all of them stand above a level. -/
inductive Awaits (overlay? : Option (Overlay V)) :
    Nat → List (List (Slot × Trie V)) → List V → Prop
  | nil {level : Nat} (hlevel : level ≤ maxLevel) : Awaits overlay? level [] []
  | cons {level below : Nat} {frame : List (Slot × Trie V)} {outer : List (List (Slot × Trie V))}
      {later : List V} (base : Address) (hlevel : level ≤ below)
      (hframe : ∀ entry ∈ frame, entry.2.WellFormed below)
      (houter : Awaits overlay? (below + 1) outer later) :
      Awaits overlay? level (frame :: outer)
        ((frame.flatMap fun entry =>
          (entry.2.listing overlay? below (base.child (below + 1) entry.1)).map (·.2)) ++ later)

namespace Awaits

variable {overlay? : Option (Overlay V)} {level : Nat} {branches : List (List (Slot × Trie V))}
  {later : List V}

theorem mono {lower : Nat} (hawaits : Awaits overlay? level branches later) (hle : lower ≤ level) :
    Awaits overlay? lower branches later := by
  cases hawaits with
  | nil hlevel => exact .nil (hle.trans hlevel)
  | cons base hlevel hframe houter => exact .cons base (hle.trans hlevel) hframe houter

theorem length_le (hawaits : Awaits overlay? level branches later) :
    branches.length + level ≤ maxLevel := by
  induction hawaits with
  | nil hlevel => rwa [List.length_nil, Nat.zero_add]
  | cons base hlevel hframe houter ih =>
      rw [List.length_cons]
      omega

end Awaits

/-- The values that a cursor still has to give: those of the leaf at hand and then those of the
branches. -/
structure Yields (cursor : Cursor V) (pending : List V) : Prop where
  overlay : Overlay.WellFormed cursor.overlay?
  awaits : ∃ later, Awaits cursor.overlay? 0 cursor.branches later ∧
    pending = cursor.values ++ later
  remaining : cursor.remaining = pending.length

variable {cursor : Cursor V} {pending : List V}

/-- The stack of a cursor never overflows. -/
theorem Yields.length_branches_le (hyields : cursor.Yields pending) :
    cursor.branches.length ≤ maxLevel := by
  obtain ⟨later, hawaits, -⟩ := hyields.awaits
  exact hawaits.length_le

/-- Going on with a child puts its values before those of the branches around it. -/
theorem enter_ok {overlay? : Option (Overlay V)} {level remaining : Nat} {child : Trie V}
    {branches : List (List (Slot × Trie V))} {later : List V} (base : Address)
    (hoverlay : Overlay.WellFormed overlay?) (hchild : child.WellFormed level)
    (hawaits : Awaits overlay? level branches later)
    (hremaining : remaining = ((child.listing overlay? level base).map (·.2) ++ later).length) :
    ∃ entered, enter ⟨branches, [], overlay?, remaining⟩ child = .ok entered ∧
      entered.Yields ((child.listing overlay? level base).map (·.2) ++ later) := by
  cases level with
  | zero =>
      obtain ⟨held, rfl, hheld⟩ := hchild.eq_leaf
      have hshown := (hoverlay.resolve hheld).stores
      have hvalues : ((Trie.leaf held).listing overlay? 0 base).map (·.2) =
          (Overlay.resolve overlay? held).node.elements := by
        rw [Trie.listing, List.map_map, hshown.elements, ← Table.map_snd_entries,
          ← hshown.entries_eq]
        rfl
      refine ⟨_, rfl, hoverlay, ⟨later, hawaits, ?_⟩, hremaining⟩
      rw [hvalues]
  | succ level =>
      obtain ⟨node, rfl, hnode, hfits⟩ := hchild.eq_branch
      have hroom : branches.length < maxLevel := by
        have hlength := hawaits.length_le
        omega
      refine ⟨⟨node.entries :: branches, [], overlay?, remaining⟩, if_pos hroom, hoverlay,
        ⟨_, .cons base (Nat.zero_le level) ?_ hawaits, ?_⟩, hremaining⟩
      · exact fun entry hmem => hfits.2 _ _ (hnode.mem_entries.mp hmem)
      · rw [Trie.listing, List.map_flatMap]
        rfl

/-- A call of `next` takes the first of the values that are left. -/
theorem next_ok (hyields : cursor.Yields pending) :
    ∃ rest, cursor.next = .ok (pending.head?, rest) ∧ rest.Yields pending.tail := by
  obtain ⟨hoverlay, ⟨later, hawaits, rfl⟩, hremaining⟩ := hyields
  induction cursor using inductionOnRounds generalizing later with
  | cons branches value values overlay? remaining =>
      refine ⟨_, next_cons .., hoverlay, ⟨later, hawaits, rfl⟩, ?_⟩
      have hlength : remaining = (values ++ later).length + 1 := hremaining
      exact Nat.sub_eq_of_eq_add hlength
  | done overlay? remaining =>
      cases hawaits with
      | nil hlevel => exact ⟨_, next_end, hoverlay, ⟨[], .nil hlevel, rfl⟩, hremaining⟩
  | pop outer overlay? remaining ih =>
      cases hawaits with
      | cons base hlevel hframe houter =>
          rw [next_pop]
          exact ih hoverlay _ (houter.mono (Nat.zero_le _)) hremaining
  | enter slot child rest outer overlay? remaining ih =>
      cases hawaits with
      | @cons _ below _ _ later base hlevel hframe houter =>
          rw [List.nil_append, List.flatMap_cons, List.append_assoc] at hremaining ⊢
          have hrest : ∀ entry ∈ rest, entry.2.WellFormed below :=
            fun entry hmem => hframe entry (List.mem_cons_of_mem _ hmem)
          obtain ⟨entered, hentered, hoverlay', ⟨later', hawaits', hpending⟩, hremaining'⟩ :=
            enter_ok _ hoverlay (hframe _ List.mem_cons_self) (.cons base le_rfl hrest houter)
              hremaining
          rw [next_enter, hentered, Checked.ok_bind, hpending]
          exact ih entered hentered hoverlay' later' hawaits' (hpending ▸ hremaining')

theorem drain_ok (hyields : cursor.Yields pending) (taken : List V) :
    drain taken cursor = .ok (taken.reverse ++ pending) := by
  induction pending generalizing cursor taken with
  | nil =>
      obtain ⟨rest, hnext, -⟩ := next_ok hyields
      rw [drain_of_none hnext, List.append_nil]
  | cons value pending ih =>
      obtain ⟨rest, hnext, hrest⟩ := next_ok hyields
      rw [drain_of_some hnext, ih hrest, List.reverse_cons, List.append_assoc]
      rfl

theorem toList_ok (hyields : cursor.Yields pending) : cursor.toList = .ok pending :=
  drain_ok hyields []

/-- The cursor after some calls of `next`. -/
def advance : Nat → Cursor V → Checked (Cursor V)
  | 0, cursor => .ok cursor
  | calls + 1, cursor => do
    let (_, rest) ← cursor.next
    advance calls rest

theorem advance_ok (hyields : cursor.Yields pending) (calls : Nat) :
    ∃ later, advance calls cursor = .ok later ∧ later.Yields (pending.drop calls) := by
  induction calls generalizing cursor pending with
  | zero => exact ⟨cursor, rfl, hyields⟩
  | succ calls ih =>
      obtain ⟨rest, hnext, hrest⟩ := next_ok hyields
      obtain ⟨later, hlater, hleft⟩ := ih hrest
      refine ⟨later, ?_, ?_⟩
      · rw [advance, hnext]
        exact hlater
      · rwa [List.drop_tail] at hleft

end Cursor

theorem IntMap.Sound.cursor_ok {map : IntMap V} (hsound : map.Sound) :
    ∃ cursor, map.cursor = .ok cursor ∧ cursor.Yields (map.addressed.map (·.2)) := by
  have hsize := hsound.size_eq_length
  rw [addressed] at hsize ⊢
  rw [cursor]
  cases hroot : map.root with
  | none =>
      rw [hroot] at hsize
      exact ⟨_, rfl, hsound.overlay_wellFormed, ⟨[], .nil (Nat.zero_le _), rfl⟩, hsize⟩
  | some root =>
      rw [hroot] at hsize
      have hlength : map.size =
          ((root.listing map.overlay? map.rootLevel 0).map Prod.snd ++ []).length := by
        rw [List.append_nil, List.length_map]
        exact hsize
      obtain ⟨entered, hentered, hyields⟩ :=
        Cursor.enter_ok 0 hsound.overlay_wellFormed (hsound.root root hroot) (.nil hsound.level_le)
          hlength
      rw [List.append_nil] at hyields
      exact ⟨entered, hentered, hyields⟩

end RadixMap
