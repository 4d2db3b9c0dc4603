import Mathlib
import RadixMap.Proofs.SlotTable

/-!
# Selection by index

The slots of a bitmap in ascending order give each slot of the set an index. Clearing the lowest bit
takes the first slot off the list. A cursor that clears one bit for each call goes through the list,
and after as many bits as an index tells the lowest is the slot with that index. The rank of a slot
leads back from the slot to its index.
-/

namespace RadixMap

namespace Bitmap

theorem contains_not (bits : Bitmap) (slot : Slot) : (~~~bits).contains slot = !bits.contains slot := by
  have hnot : (~~~bits).toNat = 2 ^ 32 - (bits.toNat + 1) := by
    rw [UInt32.toNat_not, UInt32.size]
    omega
  rw [contains, hnot, Nat.testBit_two_pow_sub_succ bits.toNat_lt, decide_eq_true slot.isLt,
    Bool.true_and, contains]

/-- The bits of `bits - 1` are those that `-bits` lacks, and of the bits of a set its negation has the
lowest only. -/
theorem contains_dropLowest {bits : Bitmap} {slot : Slot} (hslot : bits.contains slot = true)
    (hleast : ∀ other < slot, bits.contains other = false) (other : Slot) :
    bits.dropLowest.contains other = (bits.contains other && !decide (slot = other)) := by
  have hpred : bits - 1 = ~~~(-bits) := by rw [UInt32.not_eq_neg_sub, neg_neg]
  have hisolated : (bits &&& -bits).contains other = decide (slot = other) := by
    rw [and_neg_eq_single hslot hleast, contains_single]
  rw [contains_and] at hisolated
  rw [dropLowest, hpred, contains_and, contains_not, ← hisolated]
  cases bits.contains other <;> rfl

theorem slots_eq_nil_iff {bits : Bitmap} : bits.slots = [] ↔ bits = 0 := by
  rw [List.eq_nil_iff_forall_not_mem]
  constructor
  · intro hnone
    apply ext
    intro slot
    rw [contains_zero, ← Bool.not_eq_true, ← mem_slots]
    exact hnone slot
  · rintro rfl slot hmem
    rw [mem_slots, contains_zero] at hmem
    cases hmem

theorem lowest_of_slots {bits : Bitmap} {slot : Slot} {rest : List Slot}
    (hslots : bits.slots = slot :: rest) : bits.lowest = slot ∧ bits.dropLowest.slots = rest := by
  have hascending := bits.pairwise_slots
  rw [hslots] at hascending
  obtain ⟨hfirst, hrest⟩ := List.pairwise_cons.mp hascending
  have hmem : ∀ other, bits.contains other = true ↔ other = slot ∨ other ∈ rest := by
    intro other
    rw [← mem_slots, hslots, List.mem_cons]
  have hslot : bits.contains slot = true := (hmem slot).mpr (Or.inl rfl)
  have hleast : ∀ other < slot, bits.contains other = false := by
    intro other hlt
    rw [← Bool.not_eq_true, hmem]
    rintro (rfl | hother)
    · exact lt_irrefl _ hlt
    · exact lt_asymm hlt (hfirst other hother)
  refine ⟨lowest_eq hslot hleast, ?_⟩
  apply ascending_ext Fin.val (pairwise_slots _) hrest
  intro other
  rw [mem_slots, contains_dropLowest hslot hleast, Bool.and_eq_true, hmem, Bool.not_eq_true',
    decide_eq_false_iff_not]
  constructor
  · rintro ⟨rfl | hother, hne⟩
    · exact absurd rfl hne
    · exact hother
  · exact fun hother => ⟨Or.inr hother, (hfirst other hother).ne⟩

@[simp]
theorem slots_dropLowest (bits : Bitmap) : bits.dropLowest.slots = bits.slots.tail := by
  cases hslots : bits.slots with
  | nil =>
      rw [slots_eq_nil_iff.mp hslots]
      decide
  | cons slot rest => exact (lowest_of_slots hslots).2

theorem slots_repeat_dropLowest (bits : Bitmap) (index : Nat) :
    (index.repeat dropLowest bits).slots = bits.slots.drop index := by
  induction index with
  | zero => rfl
  | succ index ih => rw [Nat.repeat, slots_dropLowest, ih, List.tail_drop]

theorem select_eq_ok_iff {bits : Bitmap} {index : Nat} {slot : Slot} :
    bits.select index = .ok slot ↔ bits.slots[index]? = some slot := by
  rw [select, ← bits.length_slots]
  split
  case isTrue hlt =>
    have hdrop := slots_repeat_dropLowest bits index
    rw [List.drop_eq_getElem_cons hlt] at hdrop
    rw [(lowest_of_slots hdrop).1, List.getElem?_eq_getElem hlt, Except.ok.injEq, Option.some_inj]
  case isFalse hge => simp [List.getElem?_eq_none (Nat.le_of_not_lt hge)]

theorem select_eq_error_iff {bits : Bitmap} {index : Nat} :
    bits.select index = .error (.noSuchBit bits index) ↔ bits.slots.length ≤ index := by
  rw [select, ← bits.length_slots]
  split
  case isTrue hlt => simp [hlt]
  case isFalse hge => simp [Nat.le_of_not_lt hge]

/-! ### The index of a slot -/

theorem countBelow_slot (bits : Bitmap) (slot : Slot) : bits.countBelow slot = .ok (bits.rank slot) := by
  rw [countBelow, dif_pos slot.isLt]

/-- The list of the slots is the list of the elements of a table that holds each slot at itself. -/
theorem getElem?_slots_rank {bits : Bitmap} {slot : Slot} (hslot : bits.contains slot = true) :
    bits.slots[bits.rank slot]? = some slot := by
  have hmarks : bits.Marks (Option.guard bits.contains) := by
    intro other
    rw [Option.isSome_guard]
  have helements : Table.elements (Option.guard bits.contains) = bits.slots := by
    rw [Table.elements, List.filterMap_eq_filter, slots]
  rw [← helements]
  apply hmarks.getElem?_rank
  rw [Option.guard_eq_some_iff]
  exact ⟨rfl, hslot⟩

theorem rank_of_getElem?_slots {bits : Bitmap} {index : Nat} {slot : Slot}
    (hindex : bits.slots[index]? = some slot) : bits.rank slot = index := by
  have hslot : bits.contains slot = true := mem_slots.mp (List.mem_of_getElem? hindex)
  have hrank := getElem?_slots_rank hslot
  have hnodup : bits.slots.Nodup := bits.pairwise_slots.imp ne_of_lt
  obtain ⟨hlt, -⟩ := List.getElem?_eq_some_iff.mp hrank
  exact (List.getElem?_inj hlt hnodup).mp (hrank.trans hindex.symm)

end Bitmap

namespace SlotCursor

/-- The cursor after a call of `next?`; a call at the end leaves it where it is. -/
def advance (cursor : SlotCursor) : SlotCursor :=
  match cursor.next? with
  | some (_, rest) => rest
  | none => cursor

theorem map_fst_next? (cursor : SlotCursor) :
    cursor.next?.map (·.1) = cursor.remaining.slots.head? := by
  rw [next?]
  split
  case isTrue hzero => rw [hzero]; rfl
  case isFalse hne =>
    obtain ⟨slot, rest, hslots⟩ := List.exists_cons_of_ne_nil (mt Bitmap.slots_eq_nil_iff.mp hne)
    rw [hslots, Option.map_some, (Bitmap.lowest_of_slots hslots).1]
    rfl

theorem slots_advance (cursor : SlotCursor) :
    cursor.advance.remaining.slots = cursor.remaining.slots.tail := by
  by_cases hzero : cursor.remaining = 0
  · have hslots : cursor.remaining.slots = [] := Bitmap.slots_eq_nil_iff.mpr hzero
    simp only [advance, next?, if_pos hzero, hslots, List.tail_nil]
  · simp only [advance, next?, if_neg hzero, Bitmap.slots_dropLowest]

theorem slots_repeat_advance (cursor : SlotCursor) (calls : Nat) :
    (calls.repeat advance cursor).remaining.slots = cursor.remaining.slots.drop calls := by
  induction calls with
  | zero => rfl
  | succ calls ih => rw [Nat.repeat, slots_advance, ih, List.tail_drop]

theorem take_eq (cursor : SlotCursor) (limit : Nat) :
    take limit cursor = cursor.remaining.slots.take limit := by
  induction limit generalizing cursor with
  | zero => rfl
  | succ limit ih =>
      have hhead := cursor.map_fst_next?
      have htail := cursor.slots_advance
      rw [advance] at htail
      rw [take]
      cases hnext : cursor.next? with
      | none =>
          rw [hnext] at hhead
          rw [List.head?_eq_none_iff.mp hhead.symm]
          rfl
      | some step =>
          obtain ⟨slot, rest⟩ := step
          rw [hnext] at hhead htail
          obtain ⟨slots, hslots⟩ := List.head?_eq_some_iff.mp hhead.symm
          simp only [ih, htail, hslots, List.tail_cons, List.take_succ_cons]

theorem toList_eq (bits : Bitmap) : toList ⟨bits⟩ = bits.slots := by
  have hle : bits.slots.length ≤ 32 := List.length_filter_le _ _
  rw [toList, take_eq, List.take_of_length_le hle]

end SlotCursor

/-- What a bitmap, a cursor over it and the searches by position and by index tell of a list of
slots. -/
structure Bitmap.Enumerates (bits : Bitmap) (slots : List Slot) : Prop where
  mem : ∀ slot, slot ∈ slots ↔ bits.toNat.testBit slot.val = true
  ascending : slots.Pairwise (· < ·)
  length : slots.length = bits.count
  next : ∀ calls : Nat, (calls.repeat SlotCursor.advance ⟨bits⟩).next?.map (·.1) = slots[calls]?
  remaining : ∀ calls : Nat, (calls.repeat SlotCursor.advance ⟨bits⟩).length = slots.length - calls
  sizeBounds : ∀ calls : Nat, (calls.repeat SlotCursor.advance ⟨bits⟩).sizeBounds =
    (slots.length - calls, some (slots.length - calls))
  toList : SlotCursor.toList ⟨bits⟩ = slots
  select : ∀ index slot, bits.select index = .ok slot ↔ slots[index]? = some slot
  select_fails : ∀ index, bits.select index = .error (.noSuchBit bits index) ↔ slots.length ≤ index
  countBelow_select : ∀ index slot, bits.select index = .ok slot → bits.countBelow slot = .ok index
  select_countBelow : ∀ slot, bits.contains slot = true →
    ∃ index, bits.countBelow slot = .ok index ∧ bits.select index = .ok slot

/-- **Positions and indices are inverse.** A cursor yields the slots of a bitmap in ascending order and
counts those to come before every call, selection finds the slot with an index or fails where there is
none, and the number of slots below leads from a slot back to its index. -/
theorem Bitmap.enumerates_slots (bits : Bitmap) : bits.Enumerates bits.slots where
  mem slot := mem_slots
  ascending := bits.pairwise_slots
  length := bits.length_slots
  next calls := by
    rw [SlotCursor.map_fst_next?, SlotCursor.slots_repeat_advance, List.head?_drop]
  remaining calls := by
    rw [SlotCursor.length, ← length_slots, SlotCursor.slots_repeat_advance, List.length_drop]
  sizeBounds calls := by
    rw [SlotCursor.sizeBounds, SlotCursor.length, ← length_slots, SlotCursor.slots_repeat_advance,
      List.length_drop]
  toList := SlotCursor.toList_eq bits
  select index slot := select_eq_ok_iff
  select_fails index := select_eq_error_iff
  countBelow_select index slot hselect := by
    rw [countBelow_slot, rank_of_getElem?_slots (select_eq_ok_iff.mp hselect)]
  select_countBelow slot hslot :=
    ⟨bits.rank slot, countBelow_slot bits slot, select_eq_ok_iff.mpr (getElem?_slots_rank hslot)⟩

end RadixMap
