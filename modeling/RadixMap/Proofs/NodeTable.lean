import Mathlib
import RadixMap.Node.Basic
import RadixMap.Proofs.Selection

/-!
# Nodes as tables

A well-formed node is the one stored form of a table that is not empty. Each operation takes the
stored form of a table to the stored form of the changed table, and none of its checks fails where the
table has, or lacks, an element at the slot as the operation needs.
-/

namespace RadixMap.Node

variable {E : Type}

/-- The form of the node fits its number of elements, and so does its bitmap. -/
def WellFormed : Node E → Prop
  | one _ _ => True
  | bitmap bits elements =>
    bits.count = elements.length ∧ 2 ≤ elements.length ∧ elements.length ≤ 31
  | full elements => elements.length = 32

def find (node : Node E) : Table E :=
  fun slot => (node.index? slot).bind fun index => node.elements[index]?

/-- The node is the stored form of the table. -/
structure Stores (node : Node E) (table : Table E) : Prop where
  wellFormed : node.WellFormed
  marks : node.occupancy.Marks table
  elements : node.elements = table.elements

/-- A node stands for the table, or nothing does because the table is empty. -/
def Remains : Option (Node E) → Table E → Prop
  | some node, table => node.Stores table
  | none, table => table = Table.empty

theorem rank_single : ∀ slot : Slot, (Bitmap.single slot).rank slot = 0 := by
  decide

theorem rank_all : ∀ slot : Slot, Bitmap.all.rank slot = slot.val := by
  decide

private theorem count_single : ∀ slot : Slot, (Bitmap.single slot).count = 1 := by
  decide

private theorem count_all : Bitmap.all.count = 32 := by
  decide

theorem index?_eq (node : Node E) (slot : Slot) :
    node.index? slot =
      if node.occupancy.contains slot then some (node.occupancy.rank slot) else none := by
  cases node with
  | one occupied element =>
      simp only [index?, occupancy, Bitmap.contains_single, decide_eq_true_eq]
      split
      · rename_i heq
        rw [heq, rank_single]
      · rfl
  | bitmap bits elements => rfl
  | full elements =>
      rw [index?, occupancy, if_pos (Bitmap.contains_all slot), rank_all]

theorem WellFormed.length_elements {node : Node E} (hwf : node.WellFormed) :
    node.elements.length = node.occupancy.count := by
  cases node with
  | one slot element => exact (count_single slot).symm
  | bitmap bits elements => exact hwf.1.symm
  | full elements => exact Eq.trans hwf count_all.symm

namespace Stores

variable {node : Node E} {table : Table E} {slot : Slot} {element held : E}

theorem index?_eq_rank (hstores : node.Stores table) (hslot : table slot = some held) :
    node.index? slot = some (node.occupancy.rank slot) := by
  rw [index?_eq, hstores.marks slot, hslot]
  rfl

theorem index?_eq_none (hstores : node.Stores table) (hslot : table slot = none) :
    node.index? slot = none := by
  rw [index?_eq, hstores.marks slot, hslot]
  rfl

theorem elementAt_rank (hstores : node.Stores table) (hslot : table slot = some held) :
    node.elementAt (node.occupancy.rank slot) = .ok held := by
  rw [elementAt, hstores.elements, hstores.marks.getElem?_rank hslot]

theorem find_eq (hstores : node.Stores table) : node.find = table := by
  funext slot
  cases hslot : table slot with
  | none => rw [find, hstores.index?_eq_none hslot]; rfl
  | some held =>
      rw [find, hstores.index?_eq_rank hslot, Option.bind_some, hstores.elements,
        hstores.marks.getElem?_rank hslot]

theorem get?_eq (hstores : node.Stores table) (slot : Slot) :
    node.get? slot = .ok (table slot) := by
  cases hslot : table slot with
  | none => rw [get?, hstores.index?_eq_none hslot]
  | some held =>
      rw [get?, hstores.index?_eq_rank hslot]
      change some <$> node.elementAt _ = _
      rw [hstores.elementAt_rank hslot]
      rfl

theorem indexOf_eq (hstores : node.Stores table) (hslot : table slot = some held) :
    node.indexOf slot = .ok (node.occupancy.rank slot) := by
  rw [indexOf, hstores.index?_eq_rank hslot]
  change (fun _ => node.occupancy.rank slot) <$> node.elementAt _ = _
  rw [hstores.elementAt_rank hslot]
  rfl

theorem entries_eq (hstores : node.Stores table) : node.entries = table.entries := by
  rw [entries, SlotCursor.toList_eq, hstores.elements, hstores.marks.zip_slots]

theorem pairwise_entries (hstores : node.Stores table) :
    node.entries.Pairwise fun left right => left.1 < right.1 := by
  rw [hstores.entries_eq]
  exact table.pairwise_entries

theorem size_eq (hstores : node.Stores table) : node.size = table.elements.length := by
  rw [← hstores.elements]
  have hwf := hstores.wellFormed
  cases node with
  | one slot element => rfl
  | bitmap bits elements => rfl
  | full elements => exact Eq.symm hwf

theorem elements_ne_nil (hstores : node.Stores table) : table.elements ≠ [] := by
  rw [← hstores.elements]
  have hwf := hstores.wellFormed
  cases node with
  | one slot element => exact List.cons_ne_nil _ _
  | bitmap bits elements =>
      rintro rfl
      simp [WellFormed] at hwf
  | full elements =>
      rintro rfl
      simp [WellFormed] at hwf

theorem exists_slot (hstores : node.Stores table) : ∃ slot held, table slot = some held := by
  obtain ⟨held, hmem⟩ := List.exists_mem_of_ne_nil _ hstores.elements_ne_nil
  obtain ⟨slot, hslot⟩ := Table.mem_elements.mp hmem
  exact ⟨slot, held, hslot⟩

theorem unique {other : Node E} (hstores : node.Stores table) (hother : other.Stores table) :
    node = other := by
  have hoccupancy : node.occupancy = other.occupancy :=
    Bitmap.ext fun slot => (hstores.marks slot).trans (hother.marks slot).symm
  have helements : node.elements = other.elements := hstores.elements.trans hother.elements.symm
  have hlength := congrArg List.length helements
  have hwf := hstores.wellFormed
  have hwf' := hother.wellFormed
  cases node <;> cases other <;>
    simp only [Node.elements, occupancy, WellFormed, List.length_cons, List.length_nil]
      at hoccupancy helements hlength hwf hwf'
  case one.one slot element slot' element' =>
    have hcontains := congrArg (fun bits => bits.contains slot) hoccupancy
    simp only [Bitmap.contains_single, decide_true] at hcontains
    rw [of_decide_eq_true hcontains.symm, List.head_eq_of_cons_eq helements]
  case bitmap.bitmap => rw [hoccupancy, helements]
  case full.full => rw [helements]
  all_goals omega

end Stores

theorem WellFormed.exists_stores {node : Node E} (hwf : node.WellFormed) :
    ∃ table, node.Stores table := by
  obtain ⟨table, hmarks, helements⟩ := Bitmap.Marks.exists_table hwf.length_elements
  exact ⟨table, hwf, hmarks, helements.symm⟩

theorem WellFormed.stores {node : Node E} (hwf : node.WellFormed) : node.Stores node.find := by
  obtain ⟨table, hstores⟩ := hwf.exists_stores
  rwa [hstores.find_eq]

theorem WellFormed.mem_entries {node : Node E} (hwf : node.WellFormed) {slot : Slot} {element : E} :
    (slot, element) ∈ node.entries ↔ node.find slot = some element := by
  rw [hwf.stores.entries_eq, Table.mem_entries]

theorem WellFormed.ext {node other : Node E} (hwf : node.WellFormed) (hother : other.WellFormed)
    (hfind : node.find = other.find) : node = other :=
  hwf.stores.unique (hfind ▸ hother.stores)

/-! ### Building a node from its elements -/

theorem stores_one (slot : Slot) (element : E) :
    (one slot element).Stores (Table.single slot element) where
  wellFormed := trivial
  marks := .single slot element
  elements := (Table.elements_single slot element).symm

theorem stores_ofMany {bits : Bitmap} {table : Table E} (hmarks : bits.Marks table)
    (hmany : 2 ≤ table.elements.length) : (ofMany bits table.elements).Stores table := by
  rw [ofMany]
  split
  case isTrue hfull =>
    refine ⟨hfull, ?_, rfl⟩
    have hcount : bits.count = (List.finRange 32).length := by
      rw [hmarks.count_eq, hfull, List.length_finRange]
    intro slot
    rw [Bitmap.count_eq_countP] at hcount
    have hslot := List.countP_eq_length.mp hcount slot (List.mem_finRange slot)
    rw [← hmarks slot, hslot]
    exact Bitmap.contains_all slot
  case isFalse hfew =>
    have hle := table.length_elements_le
    exact ⟨⟨hmarks.count_eq, hmany, by omega⟩, hmarks, rfl⟩

theorem stores_one_lowest {bits : Bitmap} {table : Table E} {element : E}
    (hmarks : bits.Marks table) (helements : table.elements = [element]) :
    (one bits.lowest element).Stores table := by
  obtain ⟨slot, hslot⟩ := Table.mem_elements.mp (helements ▸ List.mem_singleton_self element)
  obtain rfl := Table.eq_single_of_elements hslot helements
  have hlowest : bits.lowest = slot := by
    apply Bitmap.lowest_eq
    · rw [hmarks slot, hslot]; rfl
    · intro other hlt
      rw [hmarks other, Table.single_of_ne hlt.ne]; rfl
  rw [hlowest]
  exact stores_one slot element

theorem remains_ofElements? {bits : Bitmap} {table : Table E} (hmarks : bits.Marks table) :
    Remains (ofElements? bits table.elements) table := by
  rw [ofElements?.eq_def]
  split
  case h_1 hnil => exact Table.eq_empty_of_elements_eq_nil hnil
  case h_2 element helement => exact stores_one_lowest hmarks helement
  case h_3 hnil hone =>
    apply stores_ofMany hmarks
    cases helements : table.elements with
    | nil => exact absurd helements hnil
    | cons first rest =>
        cases rest with
        | nil => exact absurd helements (hone first)
        | cons second rest => exact Nat.le_add_left 2 rest.length

theorem ofSurvivors_ok {bits : Bitmap} {table : Table E} (hmarks : bits.Marks table) :
    ∃ rest?, ofSurvivors bits table.elements = .ok rest? ∧ Remains rest? table := by
  refine ⟨_, ?_, remains_ofElements? hmarks⟩
  rw [ofSurvivors, if_pos hmarks.count_eq]

/-! ### A node that may be missing -/

theorem eq_none_of_remains_empty {node? : Option (Node E)}
    (hremains : Remains node? (Table.empty : Table E)) : node? = none := by
  cases node? with
  | none => rfl
  | some node =>
      obtain ⟨slot, held, hslot⟩ := Stores.exists_slot hremains
      cases hslot

/-- The table of a node, which is empty if there is no node. -/
def tableOf : Option (Node E) → Table E
  | some node => node.find
  | none => Table.empty

theorem tableOf_eq_of_remains {node? : Option (Node E)} {table : Table E}
    (hremains : Remains node? table) : tableOf node? = table := by
  cases node? with
  | none => exact hremains.symm
  | some node => exact Stores.find_eq hremains

end RadixMap.Node
