import Mathlib
import RadixMap.Json.Token
import RadixMap.Numeral

/-!
# Numerals read back

A reader takes digits for as long as there are any, so it finds where a numeral ends if the text after
it starts with no digit, point or exponent. The digits of a numeral have no leading zero, and zero has
no sign: what is written for an integer is what a reader accepts, and gives back.
-/

namespace RadixMap

namespace Numeral

theorem decimal_ne_nil (n : Nat) : decimal n ≠ [] :=
  Nat.toDigits_ne_nil

theorem isDigit_of_mem_decimal {n : Nat} {c : Char} (hmem : c ∈ decimal n) : c.isDigit = true :=
  Nat.isDigit_of_mem_toDigits (by decide) (by decide) hmem

theorem exists_cons_decimal (n : Nat) : ∃ c cs, decimal n = c :: cs ∧ c.isDigit = true := by
  obtain ⟨c, cs, hdecimal⟩ := List.exists_cons_of_ne_nil (decimal_ne_nil n)
  exact ⟨c, cs, hdecimal, isDigit_of_mem_decimal (hdecimal ▸ List.mem_cons_self)⟩

theorem exists_cons_signed (value : Int) :
    ∃ c cs, signed value = c :: cs ∧ (c = '-' ∨ c.isDigit = true) := by
  cases value with
  | ofNat n =>
      obtain ⟨c, cs, hdecimal, hdigit⟩ := exists_cons_decimal n
      exact ⟨c, cs, hdecimal, Or.inr hdigit⟩
  | negSucc n => exact ⟨'-', decimal (n + 1), rfl, Or.inl rfl⟩

theorem newline_notMem_signed (value : Int) : '\n' ∉ signed value := by
  have hdecimal (n : Nat) : '\n' ∉ decimal n := fun hmem => nomatch isDigit_of_mem_decimal hmem
  cases value with
  | ofNat n => exact hdecimal n
  | negSucc n => simp [signed, hdecimal]

theorem head?_decimal_ne {n : Nat} (hpos : 0 < n) : (decimal n).head? ≠ some '0' := by
  induction n using Nat.strongRecOn with
  | ind n ih =>
      by_cases hsmall : n < 10
      · rw [decimal, Nat.toDigits_of_lt_base hsmall]
        interval_cases n <;> decide
      · have hquotient := ih (n / 10) (by omega) (by omega)
        rw [decimal] at hquotient
        rwa [decimal, Nat.toDigits_of_base_le (by decide) (by omega),
          List.head?_append_of_ne_nil _ Nat.toDigits_ne_nil]

end Numeral

namespace Json

open Numeral

/-- No number goes on into the text. -/
structure EndsNumber (rest : List Char) : Prop where
  digit : ∀ c ∈ rest.head?, c.isDigit = false
  continued : continuesNumber rest = false

namespace EndsNumber

variable {rest : List Char}

theorem nil : EndsNumber [] where
  digit _ hhead := nomatch hhead
  continued := rfl

theorem cons {c : Char} (hdigit : c.isDigit = false) (hcontinued : continuesNumber [c] = false)
    (cs : List Char) : EndsNumber (c :: cs) where
  digit := by simpa using hdigit
  continued := hcontinued

theorem takeWhile_isDigit (hrest : EndsNumber rest) : rest.takeWhile Char.isDigit = [] := by
  cases rest with
  | nil => rfl
  | cons c cs => simp [hrest.digit c rfl]

theorem dropWhile_isDigit (hrest : EndsNumber rest) : rest.dropWhile Char.isDigit = rest := by
  cases rest with
  | nil => rfl
  | cons c cs => simp [hrest.digit c rfl]

end EndsNumber

variable {rest : List Char} (hrest : EndsNumber rest)

include hrest

theorem wholeDigits?_decimal (n : Nat) :
    wholeDigits? (decimal n ++ rest) = some (decimal n, rest) := by
  have hdigits : ∀ c ∈ decimal n, c.isDigit = true := fun c hmem => isDigit_of_mem_decimal hmem
  have hleading : ¬ (decimal n = [] ∨ ((decimal n).head? = some '0' ∧ 1 < (decimal n).length)) := by
    rcases Nat.eq_zero_or_pos n with rfl | hpos
    · decide
    · simp [decimal_ne_nil, head?_decimal_ne hpos]
  rw [wholeDigits?, List.takeWhile_append_of_pos hdigits, List.dropWhile_append_of_pos hdigits,
    hrest.takeWhile_isDigit, hrest.dropWhile_isDigit, List.append_nil, if_neg hleading]

theorem natural?_decimal (n : Nat) : natural? (decimal n ++ rest) = some (n, rest) := by
  rw [natural?, wholeDigits?_decimal hrest]
  simp [hrest.continued, decimal]

theorem integer?_signed (value : Int) : integer? (signed value ++ rest) = some (value, rest) := by
  cases value with
  | ofNat n =>
      have hunsigned : ∀ cs, decimal n ++ rest = '-' :: cs → False := by
        intro cs heq
        obtain ⟨c, digits, hdecimal, hdigit⟩ := exists_cons_decimal n
        rw [hdecimal, List.cons_append, List.cons.injEq] at heq
        rw [heq.1] at hdigit
        cases hdigit
      rw [signed, integer?.eq_2 _ hunsigned, natural?_decimal hrest]
      rfl
  | negSucc n =>
      rw [signed, List.cons_append, integer?, natural?_decimal hrest]
      rfl

theorem integerWithin?_signed {low high value : Int} (hlow : low ≤ value) (hhigh : value ≤ high) :
    integerWithin? low high (signed value ++ rest) = some (value, rest) := by
  simp [integerWithin?, integer?_signed hrest, hlow, hhigh]

end Json

end RadixMap
