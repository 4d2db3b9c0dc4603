import Mathlib
import RadixMap.Proofs.Checked
import RadixMap.Proofs.Digits

/-!
# Paths of addresses

The path of an address is its numeral in base 32, from the highest digit that is not zero down to the
digit at level 0, so an address is known by its path. The paths of two addresses agree above the level
of the highest digit of their exclusive or and part there. No path starts above `maxLevel`, but levels
are read as words, so the levels that have a slot come back at every multiple of the size of a word.
-/

namespace RadixMap.Address

/-- The slots on the way from the lowest root that reaches an address down to its value. -/
def path (address : Address) : List Slot :=
  (List.range (address.minLevel + 1)).reverse.map address.digit

theorem mapM_slotAt (address : Address) :
    (List.range (address.minLevel + 1)).reverse.mapM address.slotAt = .ok address.path := by
  apply Checked.mapM_eq_ok
  intro level hmem
  rw [List.mem_reverse, List.mem_range, Nat.lt_succ_iff] at hmem
  exact slotAt_eq address (hmem.trans address.minLevel_le_maxLevel)

theorem describe_eq (key : Int32) :
    describe key = .ok (String.ofList (Numeral.signed key.toInt) ++ " (" ++
      Numeral.hexText (ofKey key).toNat ++ ") => " ++
        ".".intercalate ((ofKey key).path.map fun slot => Numeral.text slot.val)) := by
  simp only [describe, mapM_slotAt, Checked.ok_bind, Checked.pure_eq]

theorem isLeast_minLevel (address : Address) :
    IsLeast {level | address.toNat < 32 ^ (level + 1)} address.minLevel :=
  ⟨minLevel_le_iff_lt.mp le_rfl, fun _ hlevel => minLevel_le_iff_lt.mpr hlevel⟩

theorem length_digits {address : Address} (hne : address ≠ 0) :
    (Nat.digits 32 address.toNat).length = address.minLevel + 1 := by
  have hle : ∀ level, (Nat.digits 32 address.toNat).length ≤ level + 1 ↔ address.minLevel ≤ level := by
    intro level
    rw [Nat.digits_length_le_iff (by decide), minLevel_le_iff_lt]
  have hpos : 0 < (Nat.digits 32 address.toNat).length := by
    rw [List.length_pos_iff, Nat.digits_ne_nil_iff_ne_zero]
    exact fun hzero => hne (UInt32.toNat_inj.mp hzero)
  have hupper := (hle address.minLevel).mpr le_rfl
  have hlower := (hle ((Nat.digits 32 address.toNat).length - 1)).mp (by omega)
  omega

theorem reverse_map_val_path (address : Address) :
    (address.path.map (·.val)).reverse =
      if address = 0 then [0] else Nat.digits 32 address.toNat := by
  split
  case isTrue hzero => rw [hzero]; decide
  case isFalse hne =>
    apply List.ext_getElem
    · simp [path, length_digits hne]
    · intro level hpath hdigits
      have hdigit := Nat.getD_digits address.toNat level (show 2 ≤ 32 by decide)
      rw [List.getD_eq_getElem _ _ hdigits] at hdigit
      rw [hdigit]
      simp [path, val_digit, stem]

theorem ofDigits_path (address : Address) :
    Nat.ofDigits 32 (address.path.map (·.val)).reverse = address.toNat := by
  rw [reverse_map_val_path]
  split
  case isTrue hzero => rw [hzero]; rfl
  case isFalse hne => exact Nat.ofDigits_digits 32 _

theorem path_injective : Function.Injective path := by
  intro left right hpath
  rw [← UInt32.toNat_inj, ← ofDigits_path left, ← ofDigits_path right, hpath]

/-- The path leads from the least level that reaches the address and is its numeral in base 32. -/
structure Spells (path : List Slot) (address : Address) : Prop where
  least : IsLeast {level | address.toNat < 32 ^ (level + 1)} address.minLevel
  slots : (List.range (address.minLevel + 1)).reverse.mapM address.slotAt = .ok path
  digits : (path.map (·.val)).reverse = if address = 0 then [0] else Nat.digits 32 address.toNat

/-- Two addresses pass through the same slots above a level and through two slots at it. -/
structure PartAt (left right : Address) (level : Nat) : Prop where
  above : ∀ higher, level < higher → higher ≤ maxLevel →
    ∃ slot, left.slotAt higher = .ok slot ∧ right.slotAt higher = .ok slot
  apart : ∃ slot other, left.slotAt level = .ok slot ∧ right.slotAt level = .ok other ∧ slot ≠ other
  block : left.block = right.block ↔ level = 0

theorem spells_path (address : Address) : Spells address.path address where
  least := address.isLeast_minLevel
  slots := address.mapM_slotAt
  digits := address.reverse_map_val_path

theorem digit_parting_ne_of_ne {left right : Address} (hne : left ≠ right) :
    left.digit (left ^^^ right).minLevel ≠ right.digit (left ^^^ right).minLevel := by
  rcases Nat.eq_zero_or_pos (left ^^^ right).minLevel with hzero | hpos
  · rw [hzero]
    exact fun hdigit => hne (eq_iff_block_digit.mpr ⟨parting_eq_zero_iff.mp hzero, hdigit⟩)
  · exact digit_parting_ne hpos

theorem partAt_minLevel {left right : Address} (hne : left ≠ right) :
    PartAt left right (left ^^^ right).minLevel where
  above higher hlt hle :=
    ⟨right.digit higher, by rw [slotAt_eq left hle, digit_eq_of_parting_lt hlt], slotAt_eq right hle⟩
  apart :=
    ⟨_, _, slotAt_eq left (minLevel_le_maxLevel _), slotAt_eq right (minLevel_le_maxLevel _),
      digit_parting_ne_of_ne hne⟩
  block := parting_eq_zero_iff.symm

/-- **Addressing.** Every address has a path of its own, its numeral in base 32, and the description of
a key ends with it; two addresses part at the least level that reaches their exclusive or. -/
theorem paths_spell_and_part :
    (∀ address : Address, Spells address.path address) ∧ Function.Injective path ∧
      (∀ key : Int32, describe key = .ok (String.ofList (Numeral.signed key.toInt) ++ " (" ++
        Numeral.hexText (ofKey key).toNat ++ ") => " ++
          ".".intercalate ((ofKey key).path.map fun slot => Numeral.text slot.val))) ∧
      ∀ left right : Address, left ≠ right → PartAt left right (left ^^^ right).minLevel :=
  ⟨spells_path, path_injective, describe_eq, fun _ _ hne => partAt_minLevel hne⟩

/-- The key -1 and the greatest key without a digit at level 6 part there; 0 and 31 share a block. -/
theorem part_at_top_and_bottom :
    (0xFFFFFFFF : Address) ≠ 0x3FFFFFFF ∧ PartAt 0xFFFFFFFF 0x3FFFFFFF 6 ∧
      (0 : Address) ≠ 31 ∧ PartAt 0 31 0 := by
  obtain ⟨-, -, -, hpart⟩ := paths_spell_and_part
  exact ⟨by decide, hpart 0xFFFFFFFF 0x3FFFFFFF (by decide), by decide, hpart 0 31 (by decide)⟩

/-! ### Levels read as words -/

/-- What the slot at a level of 64 bits is. The low word of the level decides alone, so a level above
`maxLevel` fails unless it wraps to a level of a trie. -/
structure ReadsLevel (address : Address) (level : UInt64) : Prop where
  digit : level.toNat ≤ maxLevel →
    ∃ slot, address.slotAt level.toNat = .ok slot ∧
      slot.val = address.toNat / 32 ^ level.toNat % 32
  wraps : address.slotAt level.toNat = address.slotAt level.toUInt32.toNat
  fails_iff : ∀ fault, address.slotAt level.toNat = .error fault ↔
    maxLevel < level.toUInt32.toNat ∧ fault = levelFault level.toUInt32.toNat

/-- **Levels.** Every level up to `maxLevel` gives the digit there, and every other one the slot or the
fault of its low word. -/
theorem slotAt_reads_low_word (address : Address) (level : UInt64) : ReadsLevel address level where
  digit hwithin := ⟨address.digit level.toNat, slotAt_eq address hwithin, val_digit address _⟩
  wraps := by
    rw [UInt64.toNat_toUInt32]
    exact (slotAt_mod address level.toNat).symm
  fails_iff fault := by
    have hword : level.toUInt32.toNat < UInt32.size := level.toUInt32.toNat_lt
    rw [← slotAt_eq_error_iff hword, UInt64.toNat_toUInt32]
    exact Eq.congr_left (slotAt_mod address level.toNat).symm

/-- Three levels past 2 ^ 32: the last that wraps into a trie, the first that does not, and the first
whose low word is too large to be multiplied. -/
theorem slots_past_two_pow_32 :
    (0xDEADBEEF : Address).slotAt (0x100000006 : UInt64).toNat = .ok 3 ∧
      (0xDEADBEEF : Address).slotAt (0x100000007 : UInt64).toNat = .error .shiftRightOverflow ∧
      (0xDEADBEEF : Address).slotAt (0x133333334 : UInt64).toNat = .error .multiplyOverflow := by
  refine ⟨?wraps, ?shift, ?multiply⟩
  case wraps =>
    obtain ⟨slot, hslot, hval⟩ := (slotAt_reads_low_word 0xDEADBEEF 6).digit (by decide)
    have hthree : slot = 3 := Fin.ext hval
    rw [(slotAt_reads_low_word 0xDEADBEEF 0x100000006).wraps, ← hthree]
    exact hslot
  case shift => exact ((slotAt_reads_low_word 0xDEADBEEF 0x100000007).fails_iff _).mpr (by decide)
  case multiply => exact ((slotAt_reads_low_word 0xDEADBEEF 0x133333334).fails_iff _).mpr (by decide)

/-- Not every level above `maxLevel` fails: level 2 ^ 32 has the slot of level 0. -/
theorem not_fails_above_maxLevel :
    (0xFFFFFFFF : Address).slotAt (0x100000000 : UInt64).toNat = .ok 31 ∧
      ¬ ∀ (address : Address) (level : UInt64), maxLevel < level.toNat →
        ∃ fault, address.slotAt level.toNat = .error fault := by
  have haccepted : (0xFFFFFFFF : Address).slotAt (0x100000000 : UInt64).toNat = .ok 31 := by
    decide
  refine ⟨haccepted, fun hfails => ?_⟩
  obtain ⟨fault, hfault⟩ := hfails 0xFFFFFFFF 0x100000000 (by decide)
  rw [haccepted] at hfault
  cases hfault

end RadixMap.Address
