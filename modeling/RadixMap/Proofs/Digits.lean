import Mathlib
import RadixMap.Address

/-!
# Digits of addresses

The stem of an address at a level is the number that its digits at that level and above write. Stems
turn the questions a trie asks of an address into arithmetic: a level reaches the address when no stem
is left above it, two addresses share a block when their stems at level 1 agree, and their paths part
at the highest level where the stems differ.
-/

namespace RadixMap.Address

/-- The digits of an address at `level` and above, as one number. -/
def stem (address : Address) (level : Nat) : Nat :=
  address.toNat / 32 ^ level

def digit (address : Address) (level : Nat) : Slot :=
  .ofLowBits (address.stem level)

theorem val_digit (address : Address) (level : Nat) :
    (address.digit level).val = address.stem level % 32 := rfl

@[simp]
theorem stem_zero (address : Address) : address.stem 0 = address.toNat := by
  simp [stem]

theorem stem_succ (address : Address) (level : Nat) :
    address.stem (level + 1) = address.stem level / 32 := by
  rw [stem, stem, Nat.div_div_eq_div_mul, pow_succ]

theorem stem_eq (address : Address) (level : Nat) :
    address.stem level = 32 * address.stem (level + 1) + (address.digit level).val := by
  rw [stem_succ, val_digit]
  omega

theorem stem_maxLevel (address : Address) : address.stem (maxLevel + 1) = 0 := by
  have hlt := address.toNat_lt
  rw [stem, Nat.div_eq_zero_iff]
  right
  calc address.toNat < 2 ^ 32 := hlt
    _ ≤ 32 ^ (maxLevel + 1) := by decide

theorem digit_maxLevel_le (address : Address) : (address.digit maxLevel).val ≤ 3 := by
  have hlt := address.toNat_lt
  have hstem : address.stem maxLevel = address.toNat / 2 ^ 30 := by
    rw [stem, show 32 ^ maxLevel = 2 ^ 30 by decide]
  rw [val_digit, hstem]
  omega

theorem stem_congr {left right : Address} {level above : Nat} (hle : level ≤ above)
    (hstem : left.stem level = right.stem level) : left.stem above = right.stem above := by
  induction above, hle using Nat.le_induction with
  | base => exact hstem
  | succ above _ ih => rw [stem_succ, stem_succ, ih]

theorem digit_congr {left right : Address} {level above : Nat} (hle : level ≤ above)
    (hstem : left.stem level = right.stem level) : left.digit above = right.digit above := by
  rw [digit, digit, stem_congr hle hstem]

theorem shiftAt_eq {level : Nat} (hlevel : level ≤ maxLevel) :
    shiftAt level = .ok (level * 5) := by
  have hmod : level % UInt32.size = level := by
    apply Nat.mod_eq_of_lt
    exact lt_of_le_of_lt hlevel (by decide)
  have hlt : level * 5 < UInt32.size := by
    have : level ≤ 6 := hlevel
    exact lt_of_le_of_lt (b := 30) (by omega) (by decide)
  simp only [shiftAt, hmod, bitsPerLevel, if_pos hlt]

theorem slotAt_eq (address : Address) {level : Nat} (hlevel : level ≤ maxLevel) :
    address.slotAt level = .ok (address.digit level) := by
  have hshift : level * 5 < 32 := by
    have : level ≤ 6 := hlevel
    omega
  have hstem : address.toNat >>> (level * 5) = address.stem level := by
    rw [Nat.shiftRight_eq_div_pow, mul_comm, pow_mul, stem]
    norm_num
  rw [slotAt, shiftAt_eq hlevel]
  change (if level * 5 < 32 then Except.ok _ else _) = _
  rw [if_pos hshift, hstem, digit]

theorem slotAt_zero (address : Address) : address.slotAt 0 = .ok (address.digit 0) :=
  slotAt_eq address (Nat.zero_le _)

theorem shiftAt_mod (level : Nat) : shiftAt (level % UInt32.size) = shiftAt level := by
  rw [shiftAt, shiftAt, Nat.mod_mod]

theorem slotAt_mod (address : Address) (level : Nat) :
    address.slotAt (level % UInt32.size) = address.slotAt level := by
  rw [slotAt, slotAt, shiftAt_mod]

/-- The check that a level above `maxLevel` breaks: the position of its digit lies past the top of an
address, or does not even fit a word. -/
def levelFault (level : Nat) : Fault :=
  if level * bitsPerLevel < UInt32.size then .shiftRightOverflow else .multiplyOverflow

theorem slotAt_eq_error (address : Address) {level : Nat} (habove : maxLevel < level)
    (hword : level < UInt32.size) : address.slotAt level = .error (levelFault level) := by
  have hshift : ¬ level * bitsPerLevel < 32 := by
    have : 6 < level := habove
    rw [bitsPerLevel]
    omega
  rw [slotAt, shiftAt, Nat.mod_eq_of_lt hword, levelFault]
  split
  case isTrue => exact if_neg hshift
  case isFalse => rfl

theorem slotAt_eq_error_iff {address : Address} {level : Nat} {fault : Fault}
    (hword : level < UInt32.size) :
    address.slotAt level = .error fault ↔ maxLevel < level ∧ fault = levelFault level := by
  rcases Nat.lt_or_ge maxLevel level with habove | hwithin
  · rw [slotAt_eq_error address habove hword]
    simp [habove, eq_comm]
  · rw [slotAt_eq address hwithin]
    simp [Nat.not_lt.mpr hwithin]

/-! ### The least level that reaches an address -/

/-- Bit `i` of the smeared word tells whether the address has a bit at one of the `width` places from
`i` up. -/
private def Smeared (word address : Address) (width : Nat) : Prop :=
  ∀ i, word.toNat.testBit i = true ↔ ∃ j, i ≤ j ∧ j < i + width ∧ address.toNat.testBit j = true

private theorem Smeared.double {word address : Address} {width : Nat} (shift : Address)
    (hword : Smeared word address width) (hshift : shift.toNat = width) (hwidth : width < 32) :
    Smeared (word ||| (word >>> shift)) address (width + width) := by
  intro i
  rw [UInt32.toNat_or, UInt32.toNat_shiftRight, hshift, Nat.mod_eq_of_lt hwidth, Nat.testBit_or,
    Nat.testBit_shiftRight, Bool.or_eq_true, hword i, hword (width + i)]
  constructor
  · rintro (⟨j, hle, hlt, hbit⟩ | ⟨j, hle, hlt, hbit⟩)
    · exact ⟨j, hle, by omega, hbit⟩
    · exact ⟨j, by omega, by omega, hbit⟩
  · rintro ⟨j, hle, hlt, hbit⟩
    by_cases hnear : j < i + width
    · exact Or.inl ⟨j, hle, hnear, hbit⟩
    · exact Or.inr ⟨j, by omega, by omega, hbit⟩

private theorem smeared_smear (address : Address) : Smeared (smear address) address 32 := by
  have hone : Smeared address address 1 := by
    intro i
    constructor
    · exact fun hbit => ⟨i, le_rfl, by omega, hbit⟩
    · rintro ⟨j, hle, hlt, hbit⟩
      rwa [show i = j by omega]
  exact ((((hone.double 1 rfl (by decide)).double 2 rfl (by decide)).double 4 rfl
    (by decide)).double 8 rfl (by decide)).double 16 rfl (by decide)

private theorem toNat_smear (address : Address) :
    (smear address).toNat = 2 ^ address.toNat.size - 1 := by
  apply Nat.eq_of_testBit_eq
  intro i
  rw [Nat.testBit_two_pow_sub_one, Bool.eq_iff_iff, smeared_smear address i, decide_eq_true_iff]
  constructor
  · rintro ⟨j, hle, -, hbit⟩
    have hj : j < address.toNat.size := Nat.lt_size.mpr (Nat.ge_two_pow_of_testBit hbit)
    omega
  · intro hi
    have hpos : address.toNat ≠ 0 := by
      intro hzero
      simp [hzero] at hi
    have hsize : address.toNat.size ≤ 32 := Nat.size_le.mpr address.toNat_lt
    refine ⟨address.toNat.size - 1, by omega, by omega, ?_⟩
    have hlog : address.toNat.size - 1 = address.toNat.log2 := by
      have hle : address.toNat.log2 < address.toNat.size :=
        Nat.lt_size.mpr (Nat.log2_self_le hpos)
      have hge : address.toNat.size ≤ address.toNat.log2 + 1 :=
        Nat.size_le.mpr Nat.lt_log2_self
      omega
    rw [hlog]
    exact Nat.testBit_log2 hpos

/-- The level found through the product is the level of the highest bit, for each of the 33 words
that smearing gives. -/
private theorem smearedLevel_eq : ∀ size < 33,
    smearedLevel[Slot.ofTopBits (UInt32.ofNat (2 ^ size - 1) * 0x07C4ACDD)] = (size - 1) / 5 := by
  decide

private theorem smearedLevel_eq_of_toNat {word : Address} {size : Nat} (hsize : size < 33)
    (hword : word.toNat = 2 ^ size - 1) :
    smearedLevel[Slot.ofTopBits (word * 0x07C4ACDD)] = (size - 1) / 5 := by
  have hofNat : word = UInt32.ofNat (2 ^ size - 1) := by
    rw [← hword, UInt32.ofNat_toNat]
  rw [hofNat]
  exact smearedLevel_eq size hsize

theorem minLevel_eq (address : Address) : address.minLevel = (address.toNat.size - 1) / 5 := by
  have hsize : address.toNat.size ≤ 32 := Nat.size_le.mpr address.toNat_lt
  exact smearedLevel_eq_of_toNat (by omega) (toNat_smear address)

theorem minLevel_le_iff {address : Address} {level : Nat} :
    address.minLevel ≤ level ↔ address.stem (level + 1) = 0 := by
  have hpow : 32 ^ (level + 1) = 2 ^ (5 * (level + 1)) := by
    rw [pow_mul]
    norm_num
  have hsize : address.stem (level + 1) = 0 ↔ address.toNat.size ≤ 5 * (level + 1) := by
    rw [stem, Nat.div_eq_zero_iff, hpow, Nat.size_le]
    simp
  rw [hsize, minLevel_eq]
  omega

theorem minLevel_le_iff_lt {address : Address} {level : Nat} :
    address.minLevel ≤ level ↔ address.toNat < 32 ^ (level + 1) := by
  rw [minLevel_le_iff, stem, Nat.div_eq_zero_iff_lt (by positivity)]

theorem minLevel_mono {left right : Address} (hle : left.toNat ≤ right.toNat) :
    left.minLevel ≤ right.minLevel := by
  have hright := minLevel_le_iff.mp (le_refl right.minLevel)
  rw [minLevel_le_iff, ← Nat.le_zero, ← hright]
  exact Nat.div_le_div_right hle

theorem minLevel_le_maxLevel (address : Address) : address.minLevel ≤ maxLevel :=
  minLevel_le_iff.mpr address.stem_maxLevel

theorem digit_eq_zero_of_minLevel_lt {address : Address} {level : Nat}
    (hlevel : address.minLevel < level) : address.digit level = Slot.origin := by
  obtain ⟨below, rfl⟩ : ∃ below, level = below + 1 := ⟨level - 1, by omega⟩
  have hstem := minLevel_le_iff.mp (Nat.lt_succ_iff.mp hlevel)
  apply Fin.ext
  rw [val_digit, hstem]
  rfl

/-- The digit at the least level that reaches an address is not zero, unless it is the last digit. -/
theorem digit_minLevel_ne_zero {address : Address} (hpos : 0 < address.minLevel) :
    address.digit address.minLevel ≠ Slot.origin := by
  obtain ⟨below, hbelow⟩ : ∃ below, address.minLevel = below + 1 :=
    ⟨address.minLevel - 1, by omega⟩
  intro hdigit
  have htop : address.stem (address.minLevel + 1) = 0 := minLevel_le_iff.mp le_rfl
  have hstem := address.stem_eq address.minLevel
  rw [htop, hdigit] at hstem
  have hle : address.minLevel ≤ below := by
    apply minLevel_le_iff.mpr
    rw [← hbelow]
    simpa [Slot.origin] using hstem
  omega

/-! ### Blocks -/

theorem toNat_block (address : Address) : address.block.toNat = 32 * address.stem 1 + 31 := by
  have hor : address.toNat ||| 31 = 2 ^ 5 * (address.toNat / 32) + 31 := by
    rw [Nat.two_pow_add_eq_or_of_lt (by decide)]
    apply Nat.eq_of_testBit_eq
    intro i
    have hmask : (31 : Nat).testBit i = decide (i < 5) := Nat.testBit_two_pow_sub_one 5 i
    rw [Nat.testBit_or, Nat.testBit_or, hmask, Nat.testBit_two_pow_mul,
      show address.toNat / 32 = address.toNat >>> 5 by rw [Nat.shiftRight_eq_div_pow],
      Nat.testBit_shiftRight]
    by_cases hi : i < 5
    · simp [hi]
    · simp [hi, show 5 + (i - 5) = i by omega, show 5 ≤ i by omega]
  have hmask : (slotMask : Address).toNat = 31 := rfl
  rw [block, UInt32.toNat_or, hmask, hor, stem, pow_one]
  norm_num

theorem stem_block (address : Address) (level : Nat) :
    address.block.stem (level + 1) = address.stem (level + 1) := by
  apply stem_congr (Nat.le_add_left 1 level)
  rw [stem, pow_one, toNat_block]
  omega

theorem block_eq_iff {left right : Address} :
    left.block = right.block ↔ left.stem 1 = right.stem 1 := by
  rw [← UInt32.toNat_inj, toNat_block, toNat_block]
  omega

@[simp]
theorem block_block (address : Address) : address.block.block = address.block :=
  block_eq_iff.mpr (address.stem_block 0)

@[simp]
theorem minLevel_block (address : Address) : address.block.minLevel = address.minLevel := by
  apply Nat.le_antisymm
  · rw [minLevel_le_iff, stem_block, ← minLevel_le_iff]
  · rw [minLevel_le_iff, ← stem_block, ← minLevel_le_iff]

theorem eq_iff_block_digit {left right : Address} :
    left = right ↔ left.block = right.block ∧ left.digit 0 = right.digit 0 := by
  constructor
  · rintro rfl
    exact ⟨rfl, rfl⟩
  · rintro ⟨hblock, hdigit⟩
    have hleft := left.stem_eq 0
    have hright := right.stem_eq 0
    rw [← UInt32.toNat_inj, ← stem_zero left, ← stem_zero right, hleft, hright, hdigit,
      block_eq_iff.mp hblock]

theorem exists_member (address : Address) (slot : Slot) :
    ∃ member : Address, member.block = address.block ∧ member.digit 0 = slot := by
  have hslot := slot.isLt
  have hfits : 32 * address.stem 1 + slot.val < 2 ^ 32 := by
    have hblock := address.block.toNat_lt
    rw [toNat_block] at hblock
    omega
  obtain ⟨member, htoNat⟩ : ∃ member : Address, member.toNat = 32 * address.stem 1 + slot.val :=
    ⟨.ofNat _, by rw [UInt32.toNat_ofNat', Nat.mod_eq_of_lt hfits]⟩
  refine ⟨member, ?_, ?_⟩
  · rw [block_eq_iff, stem_succ, stem_zero, htoNat]
    omega
  · apply Fin.ext
    rw [val_digit, stem_zero, htoNat]
    omega

theorem minLevel_congr {left right : Address} (hblock : left.block = right.block) :
    left.minLevel = right.minLevel := by
  rw [← minLevel_block left, hblock, minLevel_block]

/-! ### Where two paths part -/

theorem stem_xor (left right : Address) (level : Nat) :
    (left ^^^ right).stem level = left.stem level ^^^ right.stem level := by
  have hpow : 32 ^ level = 2 ^ (5 * level) := by
    rw [pow_mul]
    norm_num
  simp only [stem, hpow, ← Nat.shiftRight_eq_div_pow, UInt32.toNat_xor,
    Nat.shiftRight_xor_distrib]

theorem minLevel_xor_le_iff {left right : Address} {level : Nat} :
    (left ^^^ right).minLevel ≤ level ↔ left.stem (level + 1) = right.stem (level + 1) := by
  rw [minLevel_le_iff, stem_xor, Nat.xor_eq_zero_iff]

theorem digit_parting_ne {left right : Address} (hpos : 0 < (left ^^^ right).minLevel) :
    left.digit (left ^^^ right).minLevel ≠ right.digit (left ^^^ right).minLevel := by
  intro hdigit
  have habove := minLevel_xor_le_iff.mp (le_refl (left ^^^ right).minLevel)
  have hstem : left.stem (left ^^^ right).minLevel = right.stem (left ^^^ right).minLevel := by
    rw [stem_eq left, stem_eq right, habove, hdigit]
  obtain ⟨below, hbelow⟩ : ∃ below, (left ^^^ right).minLevel = below + 1 :=
    ⟨(left ^^^ right).minLevel - 1, by omega⟩
  rw [hbelow] at hstem
  have hle := minLevel_xor_le_iff.mpr hstem
  omega

theorem digit_eq_of_parting_lt {left right : Address} {level : Nat}
    (hlevel : (left ^^^ right).minLevel < level) : left.digit level = right.digit level :=
  digit_congr hlevel (minLevel_xor_le_iff.mp le_rfl)

theorem parting_eq_zero_iff {left right : Address} :
    (left ^^^ right).minLevel = 0 ↔ left.block = right.block := by
  rw [← Nat.le_zero, minLevel_xor_le_iff, zero_add, block_eq_iff]

theorem one_le_parting_iff {left right : Address} :
    1 ≤ (left ^^^ right.block).minLevel ↔ left.block ≠ right.block := by
  rw [Nat.one_le_iff_ne_zero, ne_eq, parting_eq_zero_iff, block_block]

theorem parting_le {left right : Address} {level : Nat} (hleft : left.minLevel ≤ level)
    (hright : right.minLevel ≤ level) : (left ^^^ right).minLevel ≤ level := by
  rw [minLevel_xor_le_iff, minLevel_le_iff.mp hleft, minLevel_le_iff.mp hright]

/-- Two addresses take the same slots from a level down to the leaves. -/
def SamePath (left right : Address) : Nat → Prop
  | 0 => True
  | level + 1 => left.digit (level + 1) = right.digit (level + 1) ∧ SamePath left right level

instance decidableSamePath (left right : Address) : ∀ level, Decidable (SamePath left right level)
  | 0 => .isTrue trivial
  | level + 1 =>
    haveI := decidableSamePath left right level
    inferInstanceAs (Decidable (_ ∧ _))

theorem samePath_iff {left right : Address} {level : Nat} :
    SamePath left right level ↔
      ∀ lower, 1 ≤ lower → lower ≤ level → left.digit lower = right.digit lower := by
  induction level with
  | zero => exact ⟨fun _ lower hpos hle => by omega, fun _ => trivial⟩
  | succ level ih =>
      rw [SamePath, ih]
      constructor
      · rintro ⟨htop, hbelow⟩ lower hpos hle
        rcases Nat.lt_or_ge level lower with hlt | hge
        · rwa [show lower = level + 1 by omega]
        · exact hbelow lower hpos hge
      · intro hall
        exact ⟨hall (level + 1) (by omega) le_rfl, fun lower hpos hle => hall lower hpos (by omega)⟩

theorem samePath_iff_block {left right : Address} {level : Nat} (hleft : left.minLevel ≤ level)
    (hright : right.minLevel ≤ level) : SamePath left right level ↔ left.block = right.block := by
  rw [block_eq_iff]
  constructor
  · have hdown : ∀ top, left.stem (top + 1) = right.stem (top + 1) → SamePath left right top →
        left.stem 1 = right.stem 1 := by
      intro top
      induction top with
      | zero => exact fun hstem _ => hstem
      | succ top ih =>
          rintro hstem ⟨hdigit, hpath⟩
          apply ih _ hpath
          rw [stem_eq left, stem_eq right, hstem, hdigit]
    exact hdown level (by rw [minLevel_le_iff.mp hleft, minLevel_le_iff.mp hright])
  · exact fun hstem => samePath_iff.mpr fun lower hpos _ => digit_congr hpos hstem

/-- A digit can be put before the digits of any address that the level below reaches. -/
theorem exists_digit {address : Address} {level : Nat} (hlevel : level + 1 ≤ maxLevel)
    (hmin : address.minLevel ≤ level) {slot : Slot} (hslot : level + 1 = maxLevel → slot.val ≤ 3) :
    ∃ longer : Address, longer.minLevel ≤ level + 1 ∧ longer.digit (level + 1) = slot ∧
      SamePath longer address level := by
  have hbelow := minLevel_le_iff_lt.mp hmin
  have hfits : slot.val * 32 ^ (level + 1) + address.toNat < 2 ^ 32 := by
    have hval : slot.val < 32 := slot.isLt
    have hlevel : level + 1 ≤ 6 := hlevel
    rcases Nat.lt_or_ge level 5 with hlt | hge
    · have hpow : 32 ^ (level + 1) ≤ 32 ^ 5 := Nat.pow_le_pow_right (by decide) (by omega)
      have hmul : slot.val * 32 ^ (level + 1) ≤ 31 * 32 ^ 5 := Nat.mul_le_mul (by omega) hpow
      omega
    · obtain rfl : level = 5 := by omega
      have hthree := hslot rfl
      omega
  obtain ⟨longer, htoNat⟩ : ∃ longer : Address,
      longer.toNat = slot.val * 32 ^ (level + 1) + address.toNat :=
    ⟨.ofNat _, by rw [UInt32.toNat_ofNat', Nat.mod_eq_of_lt hfits]⟩
  have hstem : ∀ lower ≤ level + 1,
      longer.stem lower = 32 ^ (level + 1 - lower) * slot.val + address.stem lower := by
    intro lower hle
    have hsplit : slot.val * 32 ^ (level + 1) =
        32 ^ lower * (32 ^ (level + 1 - lower) * slot.val) := by
      rw [← mul_assoc, ← pow_add, show lower + (level + 1 - lower) = level + 1 by omega, mul_comm]
    rw [stem, htoNat, hsplit, Nat.mul_add_div (by positivity), stem]
  have htop := hstem (level + 1) le_rfl
  rw [Nat.sub_self, pow_zero, one_mul, minLevel_le_iff.mp hmin, add_zero] at htop
  refine ⟨longer, ?_, ?_, ?_⟩
  · rw [minLevel_le_iff, stem_succ, htop]
    exact Nat.div_eq_of_lt slot.isLt
  · apply Fin.ext
    rw [val_digit, htop]
    exact Nat.mod_eq_of_lt slot.isLt
  · apply samePath_iff.mpr
    intro lower _ hle
    apply Fin.ext
    rw [val_digit, val_digit, hstem lower (by omega),
      show level + 1 - lower = (level - lower) + 1 by omega, pow_succ, mul_comm (32 ^ _), mul_assoc]
    exact Nat.mul_add_mod _ _ _

end RadixMap.Address
