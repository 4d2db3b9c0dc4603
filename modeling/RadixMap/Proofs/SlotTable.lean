import Mathlib
import RadixMap.Bitmap.Select
import RadixMap.Proofs.Sieve

/-!
# Tables over slots

A table gives each of the 32 slots an element or none. It is stored as the bitmap of the slots in use
beside the list of its elements in slot order, and the rank of a slot in the bitmap is where its
element stands in the list. Cutting the list at a slot shows what inserting, setting and erasing at
the rank do to the table.
-/

namespace RadixMap

abbrev Table (E : Type) := Slot → Option E

namespace Bitmap

theorem toNat_single (slot : Slot) : (single slot).toNat = 2 ^ slot.val := by
  have hlt : 2 ^ slot.val < 2 ^ 32 := Nat.pow_lt_pow_right (by decide) slot.isLt
  rw [single, Nat.shiftLeft_eq, one_mul, UInt32.toNat_ofNat', Nat.mod_eq_of_lt hlt]

@[simp]
theorem contains_single (slot other : Slot) :
    (single slot).contains other = decide (slot = other) := by
  rw [contains, toNat_single, Nat.testBit_two_pow, Bool.eq_iff_iff, decide_eq_true_iff,
    decide_eq_true_iff, Fin.ext_iff]

@[simp]
theorem contains_or (left right : Bitmap) (slot : Slot) :
    (left ||| right).contains slot = (left.contains slot || right.contains slot) := by
  rw [contains, UInt32.toNat_or, Nat.testBit_or, contains, contains]

@[simp]
theorem contains_and (left right : Bitmap) (slot : Slot) :
    (left &&& right).contains slot = (left.contains slot && right.contains slot) := by
  rw [contains, UInt32.toNat_and, Nat.testBit_and, contains, contains]

@[simp]
theorem contains_xor (left right : Bitmap) (slot : Slot) :
    (left ^^^ right).contains slot = (left.contains slot ^^ right.contains slot) := by
  rw [contains, UInt32.toNat_xor, Nat.testBit_xor, contains, contains]

@[simp]
theorem contains_all (slot : Slot) : all.contains slot = true := by
  have hall : all.toNat = 2 ^ 32 - 1 := rfl
  rw [contains, hall, Nat.testBit_two_pow_sub_one, decide_eq_true_iff]
  exact slot.isLt

@[simp]
theorem contains_zero (slot : Slot) : (0 : Bitmap).contains slot = false :=
  Nat.zero_testBit slot.val

theorem ext {left right : Bitmap} (hcontains : ∀ slot, left.contains slot = right.contains slot) :
    left = right := by
  rw [← UInt32.toNat_inj]
  apply Nat.eq_of_testBit_eq
  intro i
  by_cases hi : i < 32
  · exact hcontains ⟨i, hi⟩
  · have hpow : 2 ^ 32 ≤ 2 ^ i := Nat.pow_le_pow_right (by decide) (by omega)
    rw [Nat.testBit_lt_two_pow (left.toNat_lt.trans_le hpow),
      Nat.testBit_lt_two_pow (right.toNat_lt.trans_le hpow)]

theorem contains_below (bits : Bitmap) (slot other : Slot) :
    (bits &&& (single slot - 1)).contains other = (bits.contains other && decide (other < slot)) := by
  have hle : (1 : Bitmap) ≤ single slot := by
    rw [UInt32.le_iff_toNat_le, toNat_single]
    exact Nat.one_le_two_pow
  have hsub : (single slot - 1).toNat = 2 ^ slot.val - 1 := by
    rw [UInt32.toNat_sub_of_le _ _ hle, toNat_single]
    rfl
  rw [contains, UInt32.toNat_and, Nat.testBit_and, hsub, Nat.testBit_two_pow_sub_one, contains]
  rfl

/-! ### The slots of a set -/

/-- The slots of the set in ascending order. -/
def slots (bits : Bitmap) : List Slot :=
  (List.finRange 32).filter bits.contains

theorem nibbleCount_eq : ∀ word : Fin 16, nibbleCount[word] =
    (word.val.testBit 0).toNat + (word.val.testBit 1).toNat + (word.val.testBit 2).toNat +
      (word.val.testBit 3).toNat := by
  decide

theorem countNibble_eq (bits : Bitmap) (index : Nat) :
    bits.countNibble index =
      (bits.toNat.testBit (4 * index)).toNat + (bits.toNat.testBit (4 * index + 1)).toNat +
        (bits.toNat.testBit (4 * index + 2)).toNat + (bits.toNat.testBit (4 * index + 3)).toNat := by
  have hword : ∀ i < 4, (bits.toNat >>> (4 * index) % 16).testBit i =
      bits.toNat.testBit (4 * index + i) := by
    intro i hi
    rw [show 16 = 2 ^ 4 by rfl, Nat.testBit_mod_two_pow, Nat.testBit_shiftRight, decide_eq_true hi,
      Bool.true_and]
  have hcount := nibbleCount_eq ⟨bits.toNat >>> (4 * index) % 16, Nat.mod_lt _ (by decide)⟩
  rw [hword 0 (by decide), hword 1 (by decide), hword 2 (by decide), hword 3 (by decide)] at hcount
  exact hcount

theorem count_eq_countP (bits : Bitmap) :
    bits.count = (List.finRange 32).countP bits.contains := by
  have hslots : (List.finRange 32).map (fun slot => (bits.contains slot).toNat) =
      (List.range 32).map fun i => (bits.toNat.testBit i).toNat := by
    rw [← List.map_coe_finRange_eq_range, List.map_map]
    rfl
  have hsum : ∀ slots : List Slot,
      slots.countP bits.contains = (slots.map fun slot => (bits.contains slot).toNat).sum := by
    intro slots
    induction slots with
    | nil => rfl
    | cons slot slots ih =>
        rw [List.countP_cons, ih, List.map_cons, List.sum_cons, Nat.add_comm]
        cases bits.contains slot <;> rfl
  rw [hsum, hslots, count]
  simp only [countNibble_eq, List.range, List.range.loop, List.map_cons, List.map_nil, List.sum_cons,
    List.sum_nil, Nat.reduceMul, Nat.reduceAdd]
  omega

theorem mem_slots {bits : Bitmap} {slot : Slot} : slot ∈ bits.slots ↔ bits.contains slot = true := by
  rw [slots, List.mem_filter]
  exact and_iff_right (List.mem_finRange slot)

theorem pairwise_slots (bits : Bitmap) : bits.slots.Pairwise (· < ·) :=
  (List.sortedLT_finRange 32).pairwise.filter _

theorem length_slots (bits : Bitmap) : bits.slots.length = bits.count := by
  rw [slots, count_eq_countP, List.countP_eq_length_filter]

/-! ### The least slot of a set -/

private theorem isolatedPosition_single : ∀ slot : Slot,
    isolatedPosition[Slot.ofTopBits (single slot * 0x077CB531)] = slot := by
  decide

private theorem isolatedPosition_of_eq {word : Bitmap} {slot : Slot} (hword : word = single slot) :
    isolatedPosition[Slot.ofTopBits (word * 0x077CB531)] = slot := by
  rw [hword]
  exact isolatedPosition_single slot

theorem exists_odd_multiple {bits : Bitmap} {slot : Slot} (hslot : bits.contains slot = true)
    (hleast : ∀ other < slot, bits.contains other = false) :
    ∃ half, bits.toNat = 2 ^ slot.val * (2 * half + 1) := by
  obtain ⟨low, odd, ⟨half, rfl⟩, hbits⟩ : ∃ low odd, Odd odd ∧ bits.toNat = 2 ^ low * odd := by
    apply Nat.exists_eq_two_pow_mul_odd
    intro hzero
    simp [contains, hzero] at hslot
  have htest : ∀ i, bits.toNat.testBit i = (decide (i ≥ low) && (2 * half + 1).testBit (i - low)) := by
    intro i
    rw [hbits, Nat.testBit_two_pow_mul]
  have hge : low ≤ slot.val := by
    rw [contains, htest, Bool.and_eq_true, decide_eq_true_iff] at hslot
    exact hslot.1
  have hle : slot.val ≤ low := by
    by_contra hless
    have hnot := hleast ⟨low, by omega⟩ (Nat.not_le.mp hless)
    rw [contains, htest] at hnot
    simp at hnot
  exact ⟨half, by rw [hbits, Nat.le_antisymm hge hle]⟩

/-- Negation keeps the lowest bit of a word and inverts every bit above it. -/
theorem testBit_neg {bits : Bitmap} {low half : Nat} (hbits : bits.toNat = 2 ^ low * (2 * half + 1))
    (i : Nat) : (-bits).toNat.testBit i =
      (decide (i < 32) && !(decide (i < low) || (2 * half).testBit (i - low))) := by
  have hpos : 0 < bits.toNat := by
    rw [hbits]
    positivity
  have hpred : bits.toNat - 1 = 2 ^ low * (2 * half) + (2 ^ low - 1) := by
    have := Nat.two_pow_pos low
    rw [hbits, mul_add]
    omega
  have hneg : (-bits).toNat = 2 ^ 32 - ((bits.toNat - 1) + 1) := by
    rw [UInt32.toNat_neg, Nat.sub_add_cancel hpos]
    exact Nat.mod_eq_of_lt (Nat.sub_lt (by decide) hpos)
  have hlt : bits.toNat - 1 < 2 ^ 32 := lt_of_le_of_lt (Nat.sub_le _ _) bits.toNat_lt
  rw [hneg, Nat.testBit_two_pow_sub_succ hlt, hpred,
    Nat.testBit_two_pow_mul_add _ (Nat.sub_lt (Nat.two_pow_pos low) one_pos),
    Nat.testBit_two_pow_sub_one]
  by_cases hi : i < low <;> simp [hi]

theorem and_neg_eq_single {bits : Bitmap} {slot : Slot} (hslot : bits.contains slot = true)
    (hleast : ∀ other < slot, bits.contains other = false) : bits &&& -bits = single slot := by
  obtain ⟨half, hbits⟩ := exists_odd_multiple hslot hleast
  apply ext
  intro other
  rw [contains_single, contains, UInt32.toNat_and, Nat.testBit_and, testBit_neg hbits, hbits,
    Nat.testBit_two_pow_mul]
  rcases lt_trichotomy other slot with hless | heq | hmore
  · have hval : other.val < slot.val := hless
    simp [hval, hless.ne']
  · subst heq
    simp
  · have hval : slot.val < other.val := hmore
    obtain ⟨gap, hgap⟩ : ∃ gap, other.val - slot.val = gap + 1 := ⟨other.val - slot.val - 1, by omega⟩
    have hnot : ¬ other.val < slot.val := by omega
    have hodd : (2 * half + 1).testBit (gap + 1) = (2 * half).testBit (gap + 1) := by
      rw [Nat.testBit_succ, Nat.testBit_succ, show (2 * half + 1) / 2 = 2 * half / 2 by omega]
    rw [decide_eq_false hnot, hgap, hodd, decide_eq_false hmore.ne]
    cases (2 * half).testBit (gap + 1) <;> simp

theorem lowest_eq {bits : Bitmap} {slot : Slot} (hslot : bits.contains slot = true)
    (hleast : ∀ other < slot, bits.contains other = false) : bits.lowest = slot :=
  isolatedPosition_of_eq (and_neg_eq_single hslot hleast)

end Bitmap

variable {E : Type}

/-- The bitmap holds the slots that the table uses. -/
def Bitmap.Marks (bits : Bitmap) (table : Table E) : Prop :=
  ∀ slot, bits.contains slot = (table slot).isSome

namespace Table

def empty : Table E := fun _ => none

/-- The table with another element, or none, at one slot. -/
def update (table : Table E) (slot : Slot) (element? : Option E) : Table E :=
  Function.update table slot element?

@[simp]
theorem update_self (table : Table E) (slot : Slot) (element? : Option E) :
    table.update slot element? slot = element? := by
  rw [update, Function.update_self]

theorem update_of_ne {table : Table E} {slot other : Slot} (hne : other ≠ slot)
    (element? : Option E) : table.update slot element? other = table other := by
  rw [update, Function.update_of_ne hne]

def elements (table : Table E) : List E :=
  (List.finRange 32).filterMap table

def entries (table : Table E) : List (Slot × E) :=
  (List.finRange 32).filterMap fun slot => (table slot).map (slot, ·)

def before (table : Table E) (slot : Slot) : List E :=
  ((List.finRange 32).filter (· < slot)).filterMap table

def after (table : Table E) (slot : Slot) : List E :=
  ((List.finRange 32).filter (slot < ·)).filterMap table

private theorem finRange_cut : ∀ slot : Slot,
    List.finRange 32 =
      (List.finRange 32).filter (· < slot) ++ slot :: (List.finRange 32).filter (slot < ·) := by
  decide

theorem elements_cut (table : Table E) (slot : Slot) :
    table.elements = table.before slot ++ ((table slot).toList ++ table.after slot) := by
  rw [elements, finRange_cut slot, List.filterMap_append, before, after]
  cases hslot : table slot with
  | none => rw [List.filterMap_cons_none hslot]; rfl
  | some element => rw [List.filterMap_cons_some hslot]; rfl

theorem before_update (table : Table E) (slot : Slot) (element? : Option E) :
    (table.update slot element?).before slot = table.before slot := by
  apply List.filterMap_congr
  intro other hmem
  have hlt : other < slot := by simpa using (List.mem_filter.mp hmem).2
  exact update_of_ne hlt.ne element?

theorem after_update (table : Table E) (slot : Slot) (element? : Option E) :
    (table.update slot element?).after slot = table.after slot := by
  apply List.filterMap_congr
  intro other hmem
  have hlt : slot < other := by simpa using (List.mem_filter.mp hmem).2
  exact update_of_ne hlt.ne' element?

theorem elements_update (table : Table E) (slot : Slot) (element? : Option E) :
    (table.update slot element?).elements =
      table.before slot ++ (element?.toList ++ table.after slot) := by
  rw [elements_cut _ slot, before_update, after_update, update_self]

theorem length_elements_le (table : Table E) : table.elements.length ≤ 32 := by
  have hle := List.length_filterMap_le table (List.finRange 32)
  rwa [List.length_finRange] at hle

theorem mem_entries {table : Table E} {slot : Slot} {element : E} :
    (slot, element) ∈ table.entries ↔ table slot = some element := by
  rw [entries, List.mem_filterMap]
  constructor
  · rintro ⟨other, -, hother⟩
    obtain ⟨held, hheld, heq⟩ := Option.map_eq_some_iff.mp hother
    cases heq
    exact hheld
  · intro hslot
    exact ⟨slot, List.mem_finRange slot, by rw [hslot]; rfl⟩

theorem mem_elements {table : Table E} {element : E} :
    element ∈ table.elements ↔ ∃ slot, table slot = some element := by
  rw [elements, List.mem_filterMap]
  constructor
  · rintro ⟨slot, -, hslot⟩
    exact ⟨slot, hslot⟩
  · rintro ⟨slot, hslot⟩
    exact ⟨slot, List.mem_finRange slot, hslot⟩

theorem mem_before {table : Table E} {slot other : Slot} {element : E} (hlt : other < slot)
    (hother : table other = some element) : element ∈ table.before slot :=
  List.mem_filterMap.mpr
    ⟨other, List.mem_filter.mpr ⟨List.mem_finRange other, by simpa using hlt⟩, hother⟩

theorem mem_after {table : Table E} {slot other : Slot} {element : E} (hlt : slot < other)
    (hother : table other = some element) : element ∈ table.after slot :=
  List.mem_filterMap.mpr
    ⟨other, List.mem_filter.mpr ⟨List.mem_finRange other, by simpa using hlt⟩, hother⟩

theorem map_snd_entries (table : Table E) : table.entries.map (·.2) = table.elements := by
  rw [entries, List.map_filterMap, elements]
  apply List.filterMap_congr
  intro slot _
  cases table slot <;> rfl

theorem pairwise_entries (table : Table E) :
    table.entries.Pairwise fun left right => left.1 < right.1 := by
  rw [entries, List.pairwise_filterMap]
  refine (List.sortedLT_finRange 32).pairwise.imp ?_
  intro left right hlt first hfirst second hsecond
  obtain ⟨_, -, rfl⟩ := Option.map_eq_some_iff.mp hfirst
  obtain ⟨_, -, rfl⟩ := Option.map_eq_some_iff.mp hsecond
  exact hlt

theorem eq_empty_of_elements_eq_nil {table : Table E} (hnil : table.elements = []) :
    table = empty := by
  funext slot
  cases hslot : table slot with
  | none => rfl
  | some element =>
      have hmem := mem_elements.mpr ⟨slot, hslot⟩
      rw [hnil] at hmem
      cases hmem

def single (slot : Slot) (element : E) : Table E :=
  empty.update slot (some element)

theorem single_of_ne {slot other : Slot} (hne : other ≠ slot) (element : E) :
    single slot element other = none :=
  update_of_ne hne _

theorem eq_single_of_elements {table : Table E} {slot : Slot} {element : E}
    (hslot : table slot = some element) (helements : table.elements = [element]) :
    table = single slot element := by
  rw [elements_cut table slot, hslot] at helements
  obtain ⟨hbefore, hafter⟩ : table.before slot = [] ∧ table.after slot = [] := by
    have hlength := congrArg List.length helements
    simp only [Option.toList_some, List.length_append, List.length_cons, List.length_nil] at hlength
    exact ⟨List.length_eq_zero_iff.mp (by omega), List.length_eq_zero_iff.mp (by omega)⟩
  funext other
  rcases lt_trichotomy other slot with hlt | rfl | hlt
  · rw [single_of_ne hlt.ne]
    cases hother : table other with
    | none => rfl
    | some held =>
        have hmem := mem_before hlt hother
        rw [hbefore] at hmem
        cases hmem
  · rw [hslot, single, update_self]
  · rw [single_of_ne hlt.ne']
    cases hother : table other with
    | none => rfl
    | some held =>
        have hmem := mem_after hlt hother
        rw [hafter] at hmem
        cases hmem

theorem elements_single (slot : Slot) (element : E) : (single slot element).elements = [element] := by
  have hnil : ∀ slots : List Slot, slots.filterMap (empty : Table E) = [] := by
    intro slots
    rw [List.filterMap_eq_nil_iff]
    exact fun _ _ => rfl
  rw [single, elements_update, before, after, hnil, hnil]
  rfl

def ofEntries (entries : List (Slot × E)) : Table E :=
  fun slot => entries.lookup slot

theorem ofEntries_eq_some {entries : List (Slot × E)} {slot : Slot} {element : E}
    (hsorted : entries.Pairwise fun left right => left.1 < right.1) :
    ofEntries entries slot = some element ↔ (slot, element) ∈ entries := by
  induction entries with
  | nil => simp [ofEntries]
  | cons entry rest ih =>
      obtain ⟨hfirst, hrest⟩ := List.pairwise_cons.mp hsorted
      rw [ofEntries, List.lookup_cons, List.mem_cons]
      by_cases heq : slot = entry.1
      · have hnot : (entry.1, element) ∉ rest := fun hmem => (hfirst _ hmem).ne rfl
        rw [beq_iff_eq.mpr heq, Prod.ext_iff]
        simp only [hnot, or_false, heq, true_and, Option.some_inj]
        exact eq_comm
      · rw [beq_eq_false_iff_ne.mpr heq, Prod.ext_iff]
        simp only [heq, false_and, false_or]
        exact ih hrest

theorem entries_ofEntries {entries : List (Slot × E)}
    (hsorted : entries.Pairwise fun left right => left.1 < right.1) :
    (ofEntries entries).entries = entries := by
  refine ascending_ext (fun entry => entry.1.val) (pairwise_entries _) hsorted ?_
  intro entry
  exact mem_entries.trans (ofEntries_eq_some hsorted)

theorem ofEntries_eq_empty {entries : List (Slot × E)}
    (hsorted : entries.Pairwise fun left right => left.1 < right.1) :
    ofEntries entries = empty ↔ entries = [] := by
  constructor
  · intro hempty
    rw [← entries_ofEntries hsorted, hempty]
    exact List.filterMap_eq_nil_iff.mpr fun _ _ => rfl
  · rintro rfl
    rfl

end Table

/-! ### Bitmaps that mark a table -/

namespace Bitmap.Marks

variable {bits : Bitmap} {table : Table E} {slot : Slot}

theorem count_eq (hmarks : bits.Marks table) : bits.count = table.elements.length := by
  rw [count_eq_countP, Table.elements, List.length_filterMap_eq_countP]
  exact List.countP_congr fun slot _ => by rw [hmarks slot]

theorem rank_eq (hmarks : bits.Marks table) : bits.rank slot = (table.before slot).length := by
  rw [rank, count_eq_countP, Table.before, List.length_filterMap_eq_countP, List.countP_filter]
  apply List.countP_congr
  intro other _
  rw [contains_below, hmarks other]

theorem getElem?_rank (hmarks : bits.Marks table) {element : E} (hslot : table slot = some element) :
    table.elements[bits.rank slot]? = some element := by
  rw [Table.elements_cut table slot, hmarks.rank_eq, hslot, List.getElem?_append_right le_rfl]
  simp

theorem set_rank (hmarks : bits.Marks table) {element : E} (hslot : table slot = some element)
    (replacement : E) :
    table.elements.set (bits.rank slot) replacement =
      (table.update slot (some replacement)).elements := by
  rw [Table.elements_update, Table.elements_cut table slot, hmarks.rank_eq, hslot,
    List.set_append_right _ _ le_rfl]
  simp

theorem eraseIdx_rank (hmarks : bits.Marks table) {element : E} (hslot : table slot = some element) :
    table.elements.eraseIdx (bits.rank slot) = (table.update slot none).elements := by
  rw [Table.elements_update, Table.elements_cut table slot, hmarks.rank_eq, hslot,
    List.eraseIdx_append_of_length_le le_rfl]
  simp

theorem rank_le_length (hmarks : bits.Marks table) : bits.rank slot ≤ table.elements.length := by
  rw [hmarks.rank_eq, Table.elements_cut table slot, List.length_append]
  exact Nat.le_add_right _ _

private theorem insertIdx_length_append (front back : List E) (element : E) :
    (front ++ back).insertIdx front.length element = front ++ element :: back := by
  induction front with
  | nil => simp
  | cons head front ih => simp [List.insertIdx_succ_cons, ih]

theorem insertIdx_rank (hmarks : bits.Marks table) (hslot : table slot = none) (element : E) :
    table.elements.insertIdx (bits.rank slot) element =
      (table.update slot (some element)).elements := by
  rw [Table.elements_update, Table.elements_cut table slot, hmarks.rank_eq, hslot]
  exact insertIdx_length_append _ _ _

theorem single (slot : Slot) (element : E) :
    (Bitmap.single slot).Marks (Table.single slot element) := by
  intro other
  rw [contains_single]
  by_cases heq : other = slot
  · subst heq
    simp [Table.single]
  · simp [Table.single_of_ne heq, Ne.symm heq]

theorem or_single (hmarks : bits.Marks table) (slot : Slot) (element : E) :
    (bits ||| Bitmap.single slot).Marks (table.update slot (some element)) := by
  intro other
  rw [contains_or, contains_single, hmarks other]
  by_cases heq : other = slot
  · subst heq
    simp
  · simp [Table.update_of_ne heq, Ne.symm heq]

theorem replaced (hmarks : bits.Marks table) {element : E} (hslot : table slot = some element)
    (replacement : E) : bits.Marks (table.update slot (some replacement)) := by
  intro other
  rw [hmarks other]
  by_cases heq : other = slot
  · subst heq
    simp [hslot]
  · rw [Table.update_of_ne heq]

theorem xor_single (hmarks : bits.Marks table) {element : E} (hslot : table slot = some element) :
    (bits ^^^ Bitmap.single slot).Marks (table.update slot none) := by
  intro other
  rw [contains_xor, contains_single, hmarks other]
  by_cases heq : other = slot
  · subst heq
    simp [hslot]
  · simp [Table.update_of_ne heq, Ne.symm heq]

private theorem zip_filter_filterMap (slots : List Slot) (hmarks : bits.Marks table) :
    (slots.filter bits.contains).zip (slots.filterMap table) =
      slots.filterMap fun slot => (table slot).map (slot, ·) := by
  induction slots with
  | nil => rfl
  | cons slot slots ih =>
      have hslot := hmarks slot
      cases hheld : table slot with
      | none =>
          rw [hheld] at hslot
          rw [List.filter_cons_of_neg (by simp [hslot]), List.filterMap_cons_none hheld,
            List.filterMap_cons_none (by rw [hheld]; rfl), ih]
      | some element =>
          rw [hheld] at hslot
          rw [List.filter_cons_of_pos (by simp [hslot]), List.filterMap_cons_some hheld,
            List.filterMap_cons_some (by rw [hheld]; rfl), List.zip_cons_cons, ih]

theorem zip_slots (hmarks : bits.Marks table) : bits.slots.zip table.elements = table.entries :=
  zip_filter_filterMap _ hmarks

/-- Any list with an element for each slot of a bitmap holds the elements of a table. -/
theorem exists_table {elements : List E} (hlength : elements.length = bits.count) :
    ∃ table : Table E, bits.Marks table ∧ table.elements = elements := by
  have hslots : bits.slots.length = elements.length := bits.length_slots.trans hlength.symm
  have hkeys : (bits.slots.zip elements).map (·.1) = bits.slots := List.map_fst_zip hslots.le
  have hsorted : (bits.slots.zip elements).Pairwise fun left right => left.1 < right.1 := by
    rw [← List.pairwise_map (f := Prod.fst) (R := (· < ·)), hkeys]
    exact bits.pairwise_slots
  refine ⟨Table.ofEntries (bits.slots.zip elements), fun slot => ?_, ?_⟩
  · rw [Bool.eq_iff_iff, Option.isSome_iff_exists]
    simp only [Table.ofEntries_eq_some hsorted]
    have hmem : slot ∈ (bits.slots.zip elements).map (·.1) ↔ bits.contains slot = true := by
      rw [hkeys, mem_slots]
    rw [← hmem, List.mem_map]
    constructor
    · rintro ⟨entry, hentry, rfl⟩
      exact ⟨entry.2, hentry⟩
    · rintro ⟨element, hentry⟩
      exact ⟨_, hentry, rfl⟩
  · rw [← Table.map_snd_entries, Table.entries_ofEntries hsorted, List.map_snd_zip hslots.ge]

end Bitmap.Marks

end RadixMap
