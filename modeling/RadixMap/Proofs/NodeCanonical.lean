import Mathlib
import RadixMap.Proofs.Checked
import RadixMap.Proofs.NodeUpdate

/-!
# Canonical nodes

However a node was built, it stands for a table that is not empty. Each read tells what the table
holds, each operation gives the node of the changed table or fails its check, and which of the two is
up to the table alone. A table has one node only, whose form follows from the number of its elements.
-/

namespace RadixMap

variable {E : Type}

/-- The form of a node with a number of elements. -/
structure NodeKind.Fits (kind : NodeKind) (count : Nat) : Prop where
  one : kind = .one ↔ count = 1
  bitmap : kind = .bitmap ↔ 2 ≤ count ∧ count ≤ 31
  full : kind = .full ↔ count = 32

namespace Table

/-- The number of slots that hold an element. -/
def size (table : Table E) : Nat :=
  (List.finRange 32).countP fun slot => (table slot).isSome

/-- The table that gives the slots of a bitmap, in ascending order, the elements of a list. -/
def pairing (bits : Bitmap) (elements : List E) : Table E :=
  ofEntries (bits.slots.zip elements)

theorem length_elements (table : Table E) : table.elements.length = table.size := by
  rw [elements, List.length_filterMap_eq_countP, size]

theorem ofEntries_entries (table : Table E) : ofEntries table.entries = table := by
  funext slot
  apply Option.ext
  intro element
  rw [ofEntries_eq_some table.pairwise_entries, mem_entries]

theorem pairing_of_marks {bits : Bitmap} {table : Table E} (hmarks : bits.Marks table) :
    pairing bits table.elements = table := by
  rw [pairing, hmarks.zip_slots, ofEntries_entries]

end Table

namespace Node

/-- The nodes that any sequence of operations builds. -/
inductive Built : Node E → Prop
  | one (slot : Slot) (element : E) : Built (one slot element)
  | add {node added : Node E} (hnode : Built node) (slot : Slot) (element : E)
      (hadd : node.add slot element = .ok added) : Built added
  | replace {node replaced : Node E} (hnode : Built node) (slot : Slot) (element : E)
      (hreplace : node.replace slot element = .ok replaced) : Built replaced
  | remove {node rest : Node E} (hnode : Built node) (slot : Slot)
      (hremove : node.remove slot = .ok (some rest)) : Built rest
  | set {node changed : Node E} (hnode : Built node) (slot : Slot) (element : E)
      (hset : node.set slot element = .ok changed) : Built changed
  | ofSurvivors {rest : Node E} (bits : Bitmap) (values : List E)
      (hkept : ofSurvivors bits values = .ok (some rest)) : Built rest

/-- What the reads of a node tell of a table. -/
structure Represents (node : Node E) (table : Table E) : Prop where
  nonempty : table ≠ Table.empty
  get? : ∀ slot, node.get? slot = .ok (table slot)
  focus? : ∀ slot, ∃ place?, node.focus? slot = .ok place? ∧ place?.map (·.1) = table slot
  ascending : node.entries.Pairwise fun left right => left.1 < right.1
  mem_entries : ∀ slot element, (slot, element) ∈ node.entries ↔ table slot = some element
  elements : node.elements = node.entries.map (·.2)
  occupancy : ∀ slot, node.occupancy.contains slot = (table slot).isSome
  size : node.size = table.size
  kind : node.kind.Fits table.size

/-- A node stands for the table; there is none exactly if the table is empty. -/
def Yields (node? : Option (Node E)) (table : Table E) : Prop :=
  (node? = none ↔ table = Table.empty) ∧ ∀ node, node? = some node → node.Represents table

/-- What the operations on a slot make of a node that stands for a table. Whether the slot is in use
decides between the node of the changed table and the fault. -/
structure Follows (node : Node E) (table : Table E) : Prop where
  add_free : ∀ slot element, table slot = none →
    ∃ added, node.add slot element = .ok added ∧
      added.Represents (table.update slot (some element))
  add_used : ∀ slot element, table slot ≠ none → node.add slot element = .error (.slotOccupied slot)
  replace_used : ∀ slot element, table slot ≠ none →
    ∃ replaced, node.replace slot element = .ok replaced ∧
      replaced.Represents (table.update slot (some element))
  replace_free : ∀ slot element, table slot = none → node.replace slot element = .error (.slotFree slot)
  set_used : ∀ slot element, table slot ≠ none →
    ∃ changed, node.set slot element = .ok changed ∧
      changed.Represents (table.update slot (some element))
  set_free : ∀ slot element, table slot = none → node.set slot element = .error (.slotFree slot)
  fill : ∀ slot element held place, node.focus? slot = .ok (some (held, place)) →
    (place element).Represents (table.update slot (some element))
  remove_used : ∀ slot, table slot ≠ none →
    ∃ rest?, node.remove slot = .ok rest? ∧ Yields rest? (table.update slot none)
  remove_free : ∀ slot, table slot = none → node.remove slot = .error (.slotFree slot)

namespace Stores

variable {node : Node E} {table : Table E} {slot : Slot} {held : E}

theorem table_ne_empty (hstores : node.Stores table) : table ≠ Table.empty := by
  obtain ⟨slot, held, hslot⟩ := hstores.exists_slot
  rintro rfl
  cases hslot

theorem fits (hstores : node.Stores table) : node.kind.Fits table.size := by
  rw [← table.length_elements, ← hstores.size_eq]
  have hwf := hstores.wellFormed
  cases node with
  | one occupied element => constructor <;> simp [kind, Node.size]
  | bitmap bits elements =>
      obtain ⟨-, hmany, hfew⟩ := hwf
      constructor <;> simp only [kind, Node.size, reduceCtorEq, true_iff, false_iff] <;> omega
  | full elements => constructor <;> simp [kind, Node.size]

/-! ### Checks that fail -/

theorem focus?_free (hstores : node.Stores table) (hslot : table slot = none) :
    node.focus? slot = .ok none := by
  have hcontains : node.occupancy.contains slot = false := by rw [hstores.marks slot, hslot]; rfl
  cases node with
  | one occupied element =>
      rw [occupancy, Bitmap.contains_single, decide_eq_false_iff_not] at hcontains
      simp only [focus?, if_neg hcontains, Checked.pure_eq]
  | bitmap bits elements =>
      rw [occupancy] at hcontains
      simp only [focus?, hcontains, Bool.false_eq_true, if_false, Checked.pure_eq]
  | full elements =>
      rw [occupancy, Bitmap.contains_all] at hcontains
      cases hcontains

theorem indexOf_free (hstores : node.Stores table) (hslot : table slot = none) :
    node.indexOf slot = .error (.slotFree slot) := by
  rw [indexOf, hstores.index?_eq_none hslot]

theorem add_used (hstores : node.Stores table) (hslot : table slot = some held) (element : E) :
    node.add slot element = .error (.slotOccupied slot) := by
  rw [add, hstores.get?_eq slot, hslot]
  rfl

theorem replace_free (hstores : node.Stores table) (hslot : table slot = none) (element : E) :
    node.replace slot element = .error (.slotFree slot) := by
  rw [replace, hstores.indexOf_free hslot]
  rfl

theorem remove_free (hstores : node.Stores table) (hslot : table slot = none) :
    node.remove slot = .error (.slotFree slot) := by
  rw [remove, hstores.indexOf_free hslot]
  rfl

theorem set_free (hstores : node.Stores table) (hslot : table slot = none) (element : E) :
    node.set slot element = .error (.slotFree slot) := by
  rw [set, hstores.focus?_free hslot]
  rfl

/-! ### What a stored table shows -/

theorem represents (hstores : node.Stores table) : node.Represents table where
  nonempty := hstores.table_ne_empty
  get? := hstores.get?_eq
  focus? slot := by
    cases hslot : table slot with
    | none => exact ⟨none, hstores.focus?_free hslot, rfl⟩
    | some held =>
        obtain ⟨fill, hfocus, -⟩ := hstores.focus?_ok hslot
        exact ⟨some (held, fill), hfocus, rfl⟩
  ascending := hstores.pairwise_entries
  mem_entries slot element := by rw [hstores.entries_eq, Table.mem_entries]
  elements := by rw [hstores.elements, hstores.entries_eq, Table.map_snd_entries]
  occupancy := hstores.marks
  size := by rw [hstores.size_eq, table.length_elements]
  kind := hstores.fits

theorem yields_of_remains {node? : Option (Node E)} (hremains : Remains node? table) :
    Yields node? table := by
  cases node? with
  | none => exact ⟨iff_of_true rfl hremains, fun node hnode => nomatch hnode⟩
  | some node =>
      have hstores : node.Stores table := hremains
      refine ⟨iff_of_false (Option.some_ne_none node) hstores.table_ne_empty, ?_⟩
      rintro other ⟨⟩
      exact hstores.represents

theorem follows (hstores : node.Stores table) : node.Follows table where
  add_free slot element hslot := by
    obtain ⟨added, hadd, hadded⟩ := hstores.add_ok hslot element
    exact ⟨added, hadd, hadded.represents⟩
  add_used slot element hslot := by
    obtain ⟨held, hheld⟩ := Option.ne_none_iff_exists'.mp hslot
    exact hstores.add_used hheld element
  replace_used slot element hslot := by
    obtain ⟨held, hheld⟩ := Option.ne_none_iff_exists'.mp hslot
    obtain ⟨replaced, hreplace, hreplaced⟩ := hstores.replace_ok hheld element
    exact ⟨replaced, hreplace, hreplaced.represents⟩
  replace_free slot element hslot := hstores.replace_free hslot element
  set_used slot element hslot := by
    obtain ⟨held, hheld⟩ := Option.ne_none_iff_exists'.mp hslot
    obtain ⟨changed, hset, hchanged⟩ := hstores.set_ok hheld element
    exact ⟨changed, hset, hchanged.represents⟩
  set_free slot element hslot := hstores.set_free hslot element
  fill slot element held place hfocus := by
    cases hslot : table slot with
    | none => cases hfocus.symm.trans (hstores.focus?_free hslot)
    | some element' =>
        obtain ⟨filled, hfilled, hstored⟩ := hstores.focus?_ok hslot
        cases hfocus.symm.trans hfilled
        exact (hstored element).represents
  remove_used slot hslot := by
    obtain ⟨held, hheld⟩ := Option.ne_none_iff_exists'.mp hslot
    obtain ⟨rest?, hremove, hremains⟩ := hstores.remove_ok hheld
    exact ⟨rest?, hremove, yields_of_remains hremains⟩
  remove_free slot hslot := hstores.remove_free hslot

end Stores

/-! ### Nodes that operations build -/

theorem ofSurvivors_stores {bits : Bitmap} {values : List E} (hcount : bits.count = values.length) :
    ∃ rest?, ofSurvivors bits values = .ok rest? ∧ Remains rest? (Table.pairing bits values) := by
  obtain ⟨table, hmarks, rfl⟩ := Bitmap.Marks.exists_table hcount.symm
  rw [Table.pairing_of_marks hmarks]
  exact ofSurvivors_ok hmarks

/-- An operation that succeeds has built a node in the form for its number of elements: the table of
the node it started from says that the check it passed could only pass on such a slot. -/
theorem Built.wellFormed {node : Node E} (hbuilt : node.Built) : node.WellFormed := by
  induction hbuilt with
  | one slot element => trivial
  | @add node added _ slot element hadd ih =>
      cases hslot : node.find slot with
      | none => exact (Checked.of_eq_ok (ih.stores.add_ok hslot element) hadd).wellFormed
      | some held => cases hadd.symm.trans (ih.stores.add_used hslot element)
  | @replace node replaced _ slot element hreplace ih =>
      cases hslot : node.find slot with
      | none => cases hreplace.symm.trans (ih.stores.replace_free hslot element)
      | some held => exact (Checked.of_eq_ok (ih.stores.replace_ok hslot element) hreplace).wellFormed
  | @remove node rest _ slot hremove ih =>
      cases hslot : node.find slot with
      | none => cases hremove.symm.trans (ih.stores.remove_free hslot)
      | some held =>
          have hrest := Checked.of_eq_ok (ih.stores.remove_ok hslot) hremove
          exact Stores.wellFormed hrest
  | @set node changed _ slot element hset ih =>
      cases hslot : node.find slot with
      | none => cases hset.symm.trans (ih.stores.set_free hslot element)
      | some held => exact (Checked.of_eq_ok (ih.stores.set_ok hslot element) hset).wellFormed
  | @ofSurvivors rest bits values hkept =>
      by_cases hcount : bits.count = values.length
      · have hrest := Checked.of_eq_ok (ofSurvivors_stores hcount) hkept
        exact Stores.wellFormed hrest
      · rw [Node.ofSurvivors, if_neg hcount] at hkept
        cases hkept

theorem Represents.find_eq {node : Node E} {table : Table E} (hnode : node.Represents table)
    (hwf : node.WellFormed) : node.find = table := by
  funext slot
  have hget := hnode.get? slot
  rw [hwf.stores.get?_eq] at hget
  exact Except.ok.inj hget

/-- **Nodes are canonical.** Every node that operations build stands for a table that is not empty,
and follows it in every read and every further operation; survivors give the node of the table that
pairs them with their slots, exactly if there are as many of them as slots; and nodes that stand for
the same table are the same node. -/
theorem built_canonical (E : Type) :
    (∀ node : Node E, node.Built → ∃ table, node.Represents table ∧ node.Follows table) ∧
      (∀ (bits : Bitmap) (values : List E),
        (bits.count = values.length → ∃ rest?, ofSurvivors bits values = .ok rest? ∧
          Yields rest? (Table.pairing bits values)) ∧
        (bits.count ≠ values.length →
          ofSurvivors bits values = .error (.survivorCount bits.count values.length))) ∧
      ∀ (left right : Node E) (table : Table E), left.Built → right.Built →
        left.Represents table → right.Represents table → left = right := by
  refine ⟨?represents, ?survivors, ?canonical⟩
  case represents =>
    intro node hbuilt
    have hstores := hbuilt.wellFormed.stores
    exact ⟨node.find, hstores.represents, hstores.follows⟩
  case survivors =>
    intro bits values
    constructor
    · intro hcount
      obtain ⟨rest?, hkept, hremains⟩ := ofSurvivors_stores hcount
      exact ⟨rest?, hkept, Stores.yields_of_remains hremains⟩
    · intro hcount
      rw [ofSurvivors, if_neg hcount]
  case canonical =>
    intro left right table hleft hright hleftTable hrightTable
    apply hleft.wellFormed.ext hright.wellFormed
    rw [hleftTable.find_eq hleft.wellFormed, hrightTable.find_eq hright.wellFormed]

/-- A full node loses an element and takes it back: it is the node that it was. -/
theorem canonical_of_refilled :
    let part : Node Nat := .bitmap 0xFFFFFFDF ((List.range 32).eraseIdx 5)
    let whole : Node Nat := .full (List.range 32)
    part.Built ∧ whole.Built ∧ whole.remove 5 = .ok (some part) ∧
      (∀ refilled, part.add 5 5 = .ok refilled → refilled = whole) ∧
      (∃ table, part.Represents table ∧ part.Follows table) ∧
      (∃ rest?, ofSurvivors Bitmap.all (List.range 32) = .ok rest? ∧
        Yields rest? (Table.pairing Bitmap.all (List.range 32))) ∧
      ofSurvivors Bitmap.all [0, 1] = .error (.survivorCount 32 2) := by
  intro part whole
  have hwhole : whole.Built := .ofSurvivors Bitmap.all (List.range 32) rfl
  have hremove : whole.remove 5 = .ok (some part) := by decide
  have hpart : part.Built := .remove hwhole 5 hremove
  obtain ⟨hrepresents, hsurvivors, hcanonical⟩ := built_canonical Nat
  refine ⟨hpart, hwhole, hremove, ?_, hrepresents part hpart, (hsurvivors _ _).1 (by decide),
    (hsurvivors Bitmap.all [0, 1]).2 (by decide)⟩
  intro refilled hadd
  have hwholeAgain : part.add 5 5 = .ok whole := by decide
  obtain ⟨table, htable, -⟩ := hrepresents whole hwhole
  cases hadd.symm.trans hwholeAgain
  exact hcanonical whole whole table (.add hpart 5 5 hadd) hwhole htable htable

end Node

end RadixMap
