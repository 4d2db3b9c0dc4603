import Mathlib
import RadixMap.Proofs.NodeTable

/-!
# Changing a node

What each operation on one slot does to the table of a node. The operations that add need a free slot
and the ones that replace or remove an occupied one; then they succeed, and the node they return
stores the changed table.
-/

namespace RadixMap.Node

variable {E : Type} {node : Node E} {table : Table E} {slot : Slot} {held : E}

@[simp]
theorem kind_withElements (node : Node E) (elements : List E) :
    (node.withElements elements).kind = node.kind := by
  cases node <;> rfl

@[simp]
theorem occupancy_withElements (node : Node E) (elements : List E) :
    (node.withElements elements).occupancy = node.occupancy := by
  cases node <;> rfl

namespace Stores

theorem eq_single_of_one {occupied : Slot} {existing : E}
    (hstores : (one occupied existing).Stores table) : table = Table.single occupied existing :=
  hstores.find_eq.symm.trans (stores_one occupied existing).find_eq

private theorem elements_update_single {occupied : Slot} (existing element : E)
    (hne : slot ≠ occupied) :
    ((Table.single occupied existing).update slot (some element)).elements =
      if slot < occupied then [element, existing] else [existing, element] := by
  have hcut := (Table.single occupied existing).elements_cut slot
  rw [Table.elements_single, Table.single_of_ne hne] at hcut
  have hself : Table.single occupied existing occupied = some existing := by simp [Table.single]
  have hlength := congrArg List.length hcut
  simp only [Option.toList_none, List.nil_append, List.length_append, List.length_cons,
    List.length_nil] at hcut hlength
  rw [Table.elements_update]
  split
  case isTrue hlt =>
    have hmem := Table.mem_after hlt hself
    have hpos := List.length_pos_of_mem hmem
    have hbefore : (Table.single occupied existing).before slot = [] :=
      List.length_eq_zero_iff.mp (by omega)
    rw [hbefore, List.nil_append] at hcut
    rw [hbefore, ← hcut]
    rfl
  case isFalse hge =>
    have hlt : occupied < slot := lt_of_le_of_ne (not_lt.mp hge) hne.symm
    have hmem := Table.mem_before hlt hself
    have hpos := List.length_pos_of_mem hmem
    have hafter : (Table.single occupied existing).after slot = [] :=
      List.length_eq_zero_iff.mp (by omega)
    rw [hafter, List.append_nil] at hcut
    rw [hafter, ← hcut]
    rfl

theorem join_ok (hstores : node.Stores table) (hslot : table slot = none) (element : E) :
    ∃ joined, node.join slot element = .ok joined ∧
      joined.Stores (table.update slot (some element)) := by
  cases node with
  | one occupied existing =>
      obtain rfl := hstores.eq_single_of_one
      have hne : slot ≠ occupied := by
        rintro rfl
        simp [Table.single] at hslot
      have helements := elements_update_single existing element hne
      have hmarks := hstores.marks.or_single slot element
      refine ⟨_, rfl, ⟨?_, ?_, ?_⟩, hmarks, helements.symm⟩
      · exact (hmarks.count_eq).trans (congrArg List.length helements)
      · split <;> exact le_rfl
      · split <;> exact Nat.le_add_left 2 29
  | bitmap bits elements =>
      have helements : elements = table.elements := hstores.elements
      subst helements
      have hbits : bits.Marks table := hstores.marks
      have hinsert := hbits.insertIdx_rank hslot element
      have hmany : 2 ≤ (table.update slot (some element)).elements.length := by
        rw [← hinsert]
        exact hstores.wellFormed.2.1.trans List.length_le_length_insertIdx
      have hmarks := hbits.or_single slot element
      refine ⟨ofMany (bits ||| Bitmap.single slot) (table.update slot (some element)).elements, ?_,
        stores_ofMany hmarks hmany⟩
      simp only [join, hinsert, if_pos hbits.rank_le_length]
  | full elements =>
      have hused := hstores.marks slot
      rw [hslot, occupancy, Bitmap.contains_all] at hused
      cases hused

theorem add_ok (hstores : node.Stores table) (hslot : table slot = none) (element : E) :
    ∃ added, node.add slot element = .ok added ∧
      added.Stores (table.update slot (some element)) := by
  obtain ⟨joined, hjoin, hjoined⟩ := hstores.join_ok hslot element
  refine ⟨joined, ?_, hjoined⟩
  rw [add, hstores.get?_eq slot, hslot]
  exact hjoin

theorem withElements {changed : Table E} (hstores : node.Stores table)
    (hmarks : node.occupancy.Marks changed) :
    (node.withElements changed.elements).Stores changed := by
  have hlength : changed.elements.length = node.elements.length := by
    rw [← hmarks.count_eq, hstores.wellFormed.length_elements]
  cases node with
  | one occupied existing =>
      obtain ⟨element, helement⟩ := List.length_eq_one_iff.mp hlength
      refine ⟨trivial, hmarks, ?_⟩
      rw [helement]
      rfl
  | bitmap bits elements =>
      obtain ⟨-, hmany, hfew⟩ := hstores.wellFormed
      have hlength : changed.elements.length = elements.length := hlength
      exact ⟨⟨hmarks.count_eq, by omega, by omega⟩, hmarks, rfl⟩
  | full elements => exact ⟨hlength.trans hstores.wellFormed, hmarks, rfl⟩

theorem replace_eq (hstores : node.Stores table) (hslot : table slot = some held) (element : E) :
    node.replace slot element =
      .ok (node.withElements (table.update slot (some element)).elements) := by
  rw [replace, hstores.indexOf_eq hslot, hstores.elements, ← hstores.marks.set_rank hslot]
  rfl

theorem replace_ok (hstores : node.Stores table) (hslot : table slot = some held) (element : E) :
    ∃ replaced, node.replace slot element = .ok replaced ∧
      replaced.Stores (table.update slot (some element)) :=
  ⟨_, hstores.replace_eq hslot element,
    hstores.withElements (hstores.marks.replaced hslot element)⟩

theorem put_ok (hstores : node.Stores table) (slot : Slot) (element : E) :
    ∃ stored, node.put slot element = .ok (stored, (table slot).isNone) ∧
      stored.Stores (table.update slot (some element)) := by
  rw [put, hstores.get?_eq slot]
  cases hslot : table slot with
  | none =>
      obtain ⟨added, hadd, hadded⟩ := hstores.add_ok hslot element
      refine ⟨added, ?_, hadded⟩
      change (node.add slot element >>= fun added => pure (added, true)) = _
      rw [hadd]
      rfl
  | some held =>
      obtain ⟨replaced, hreplace, hreplaced⟩ := hstores.replace_ok hslot element
      refine ⟨replaced, ?_, hreplaced⟩
      change (node.replace slot element >>= fun replaced => pure (replaced, false)) = _
      rw [hreplace]
      rfl

theorem remove_ok (hstores : node.Stores table) (hslot : table slot = some held) :
    ∃ rest?, node.remove slot = .ok rest? ∧ Remains rest? (table.update slot none) := by
  refine ⟨_, ?_, remains_ofElements? (hstores.marks.xor_single hslot)⟩
  rw [remove, hstores.indexOf_eq hslot, hstores.elements, ← hstores.marks.eraseIdx_rank hslot]
  rfl

theorem update_eq_empty (hstores : node.Stores table) (hslot : table slot = some held)
    (hlast : node.remove slot = .ok none) : table.update slot none = Table.empty := by
  obtain ⟨rest?, hremove, hremains⟩ := hstores.remove_ok hslot
  rw [hlast] at hremove
  cases hremove
  exact hremains

theorem update_ok (hstores : node.Stores table) (hslot : table slot = some held)
    (element? : Option E) :
    ∃ rest?, node.update slot element? = .ok rest? ∧ Remains rest? (table.update slot element?) := by
  cases element? with
  | none => exact hstores.remove_ok hslot
  | some element =>
      obtain ⟨replaced, hreplace, hreplaced⟩ := hstores.replace_ok hslot element
      refine ⟨some replaced, ?_, hreplaced⟩
      rw [update, hreplace]
      rfl

/-- The place of an occupied slot, filled with any element, gives the node with that element. -/
theorem focus?_ok (hstores : node.Stores table) (hslot : table slot = some held) :
    ∃ fill, node.focus? slot = .ok (some (held, fill)) ∧
      ∀ element, (fill element).Stores (table.update slot (some element)) := by
  have hat := hstores.elementAt_rank hslot
  have hcontains : node.occupancy.contains slot = true := by rw [hstores.marks slot, hslot]; rfl
  have hset := fun element => hstores.marks.set_rank hslot element
  have hwith := fun element => hstores.withElements (hstores.marks.replaced hslot element)
  cases node with
  | one occupied existing =>
      have heq : occupied = slot := by simpa [occupancy] using hcontains
      have hheld : existing = held := by
        subst heq
        rw [hstores.eq_single_of_one] at hslot
        simpa [Table.single] using hslot
      subst hheld
      refine ⟨one occupied, ?_, ?_⟩
      · rw [focus?, if_pos heq]
        rfl
      · intro element
        have hstored := hwith element
        rw [← hset element, ← hstores.elements] at hstored
        rw [occupancy, heq, rank_single, Node.elements, List.set_cons_zero] at hstored
        rw [heq]
        exact hstored
  | bitmap bits elements =>
      refine ⟨fun element => bitmap bits (elements.set (bits.rank slot) element), ?_, ?_⟩
      · have hat : (bitmap bits elements).elementAt (bits.rank slot) = .ok held := hat
        simp only [focus?, if_pos (show bits.contains slot = true from hcontains), hat]
        rfl
      · intro element
        have hstored := hwith element
        rw [← hset element, ← hstores.elements] at hstored
        exact hstored
  | full elements =>
      rw [occupancy, rank_all] at hat
      refine ⟨fun element => full (elements.set slot element), ?_, ?_⟩
      · rw [focus?, hat]
        rfl
      · intro element
        have hstored := hwith element
        rw [← hset element, ← hstores.elements] at hstored
        rwa [occupancy, rank_all] at hstored

theorem set_ok (hstores : node.Stores table) (hslot : table slot = some held) (element : E) :
    ∃ changed, node.set slot element = .ok changed ∧
      changed.Stores (table.update slot (some element)) := by
  obtain ⟨fill, hfocus, hfill⟩ := hstores.focus?_ok hslot
  refine ⟨fill element, ?_, hfill element⟩
  rw [set, hfocus]
  rfl

/-- Filling the place of an occupied slot and copying the node with another element there are the same
replacement. -/
theorem focus?_replace (hstores : node.Stores table) (hslot : table slot = some held) :
    ∃ fill, node.focus? slot = .ok (some (held, fill)) ∧
      ∀ element, node.replace slot element = .ok (fill element) := by
  obtain ⟨fill, hfocus, hfill⟩ := hstores.focus?_ok hslot
  refine ⟨fill, hfocus, fun element => ?_⟩
  obtain ⟨replaced, hreplace, hreplaced⟩ := hstores.replace_ok hslot element
  rw [hreplace, hreplaced.unique (hfill element)]

theorem set_eq_replace (hstores : node.Stores table) (hslot : table slot = some held)
    (element : E) : node.set slot element = node.replace slot element := by
  obtain ⟨fill, hfocus, hreplace⟩ := hstores.focus?_replace hslot
  rw [set, hfocus, hreplace]
  rfl

theorem origin?_eq_some (hstores : node.Stores table) (horigin : node.origin? = some held) :
    table = Table.single .origin held := by
  cases node with
  | one occupied existing =>
      rw [origin?] at horigin
      split at horigin
      case isTrue heq =>
        cases horigin
        rw [← heq]
        exact hstores.eq_single_of_one
      case isFalse => cases horigin
  | bitmap bits elements => cases horigin
  | full elements => cases horigin

theorem origin?_eq_none (hstores : node.Stores table) (horigin : node.origin? = none) :
    ∃ slot held, slot ≠ Slot.origin ∧ table slot = some held := by
  by_contra hnone
  push Not at hnone
  have hfree : ∀ slot, slot ≠ Slot.origin → table slot = none := fun slot hne =>
    Option.eq_none_iff_forall_ne_some.mpr fun held => hnone slot held hne
  obtain ⟨slot, held, hslot⟩ := hstores.exists_slot
  have heq : slot = Slot.origin := by
    by_contra hne
    exact hnone slot held hne hslot
  subst heq
  have htable : table = Table.single .origin held := by
    funext other
    by_cases hother : other = Slot.origin
    · subst hother
      simp [hslot, Table.single]
    · rw [hfree other hother, Table.single_of_ne hother]
  subst htable
  obtain rfl := hstores.unique (stores_one .origin held)
  simp [origin?] at horigin

end Stores

end RadixMap.Node
