import Mathlib

/-!
# Written items told apart

Items written one after another can be told apart when each can be told from what follows it and none
starts as the text after the last does.
-/

namespace RadixMap

variable {α : Type}

/-- Written items are told from one another and from the text after them, if that text is of a kind. -/
def Separates (write : α → List Char) (after : List Char → Prop) : Prop :=
  ∀ ⦃first second : α⦄ ⦃left right : List Char⦄, after left → after right →
    write first ++ left = write second ++ right → first = second ∧ left = right

theorem Separates.of_read {write : α → List Char} {after : List Char → Prop}
    {read : List Char → Option (α × List Char)}
    (hread : ∀ item rest, after rest → read (write item ++ rest) = some (item, rest)) :
    Separates write after := by
  intro first second left right hleft hright hsame
  have hfirst := hread first left hleft
  rw [hsame, hread second right hright, Option.some_inj, Prod.mk.injEq] at hfirst
  exact ⟨hfirst.1.symm, hfirst.2.symm⟩

theorem Separates.flatMap {write : α → List Char} {after : List Char → Prop}
    (hwrite : Separates write after) (close : Char) (hitem : ∀ item rest, after (write item ++ rest))
    (hclose : ∀ rest, after (close :: rest))
    (hhead : ∀ item rest left, write item ++ rest ≠ close :: left) :
    Separates (List.flatMap write) fun rest => rest.head? = some close := by
  intro first second left right hleft hright hsame
  obtain ⟨left, rfl⟩ := List.head?_eq_some_iff.mp hleft
  obtain ⟨right, rfl⟩ := List.head?_eq_some_iff.mp hright
  have hafter : ∀ (items : List α) rest, after (items.flatMap write ++ close :: rest) := by
    intro items rest
    cases items with
    | nil => exact hclose rest
    | cons item items =>
        rw [List.flatMap_cons, List.append_assoc]
        exact hitem item _
  -- The longer of two lists would go on with an item where the other has its close.
  induction first generalizing second with
  | nil =>
      cases second with
      | nil => exact ⟨rfl, hsame⟩
      | cons item items =>
          rw [List.flatMap_cons, List.append_assoc] at hsame
          exact absurd hsame.symm (hhead item _ _)
  | cons item items ih =>
      cases second with
      | nil =>
          rw [List.flatMap_cons, List.append_assoc] at hsame
          exact absurd hsame (hhead item _ _)
      | cons other others =>
          rw [List.flatMap_cons, List.flatMap_cons, List.append_assoc, List.append_assoc] at hsame
          obtain ⟨rfl, hrest⟩ := hwrite (hafter items left) (hafter others right) hsame
          obtain ⟨rfl, htail⟩ := ih hrest
          exact ⟨rfl, htail⟩

/-- Items with a separator between any two are the first item and then each other one with the
separator before it. -/
theorem intercalate_map_cons (separator : List Char) (write : α → List Char) (item : α)
    (others : List α) :
    separator.intercalate ((item :: others).map write) =
      write item ++ others.flatMap fun other => separator ++ write other := by
  induction others generalizing item with
  | nil => simp
  | cons next others ih =>
      rw [List.map_cons, List.map_cons, List.intercalate_cons_cons, ← List.map_cons, ih,
        List.flatMap_cons, List.append_assoc, List.append_assoc]

end RadixMap
