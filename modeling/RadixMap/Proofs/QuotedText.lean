import Mathlib
import RadixMap.Datum
import RadixMap.Proofs.Numerals
import RadixMap.Proofs.Separation

/-!
# Quoted text taken apart

Characters in quotes can be taken apart in one way only: each is shown by itself or by an escape of its
own, and none is shown by a quote. So texts in quotes, and data that may be such texts or numerals, are
told from one another and from what follows them.
-/

namespace RadixMap

namespace Numeral

def hexValue (digits : List Char) : Nat :=
  digits.foldl (fun value digit => value * 16 + (Json.hexDigit? digit).getD 0) 0

private theorem hexDigit?_digitChar : ∀ digit < 16, Json.hexDigit? digit.digitChar = some digit := by
  decide

theorem hexDigits_step {n : Nat} (hlarge : 16 ≤ n) :
    hexDigits n = hexDigits (n / 16) ++ [(n % 16).digitChar] :=
  Nat.toDigits_of_base_le (by decide) hlarge

theorem hexValue_hexDigits (n : Nat) : hexValue (hexDigits n) = n := by
  induction n using Nat.strongRecOn with
  | ind n ih =>
      rcases Nat.lt_or_ge n 16 with hsmall | hlarge
      · rw [hexDigits, Nat.toDigits_of_lt_base hsmall, hexValue, List.foldl_cons, List.foldl_nil,
          hexDigit?_digitChar n hsmall, Option.getD_some, Nat.zero_mul, Nat.zero_add]
      · have hquotient := ih (n / 16) (by omega)
        rw [hexValue] at hquotient
        rw [hexDigits_step hlarge, hexValue, List.foldl_append, hquotient, List.foldl_cons,
          List.foldl_nil, hexDigit?_digitChar _ (Nat.mod_lt n (by decide)), Option.getD_some]
        omega

theorem isSome_hexDigit?_of_mem {n : Nat} {c : Char} (hmem : c ∈ hexDigits n) :
    (Json.hexDigit? c).isSome = true := by
  have hdigit : ∀ digit < 16, (Json.hexDigit? digit.digitChar).isSome = true :=
    fun digit hsmall => Option.isSome_iff_exists.mpr ⟨digit, hexDigit?_digitChar digit hsmall⟩
  induction n using Nat.strongRecOn with
  | ind n ih =>
      rcases Nat.lt_or_ge n 16 with hsmall | hlarge
      · rw [hexDigits, Nat.toDigits_of_lt_base hsmall, List.mem_singleton] at hmem
        exact hmem ▸ hdigit n hsmall
      · rw [hexDigits_step hlarge, List.mem_append, List.mem_singleton] at hmem
        rcases hmem with hmem | rfl
        · exact ih (n / 16) (by omega) hmem
        · exact hdigit _ (Nat.mod_lt n (by decide))

theorem ne_brace_of_mem_hexDigits {n : Nat} {c : Char} (hmem : c ∈ hexDigits n) : c ≠ '\x7d' := by
  rintro rfl
  cases isSome_hexDigit?_of_mem hmem

theorem separates_signed : Separates signed Json.EndsNumber :=
  Separates.of_read fun value _ hrest => Json.integer?_signed hrest value

theorem signed_ne_cons {c : Char} (hsign : c ≠ '-') (hdigit : c.isDigit = false) (value : Int)
    (rest left : List Char) : signed value ++ rest ≠ c :: left := by
  obtain ⟨d, digits, hsigned, hd⟩ := exists_cons_signed value
  rw [hsigned]
  intro hsame
  obtain rfl := List.head_eq_of_cons_eq hsame
  rcases hd with rfl | hd
  · exact hsign rfl
  · rw [hdigit] at hd
    cases hd

end Numeral

namespace Text

open Numeral

/-- The character that a letter after a backslash stands for. -/
def shownBy? : Char → Option Char
  | '"' => some '"'
  | '\\' => some '\\'
  | 'n' => some '\n'
  | 'r' => some '\r'
  | 't' => some '\t'
  | '0' => some '\x00'
  | _ => none

/-- Reads a character of a quotation, shown by itself or by an escape. -/
def readChar? : List Char → Option (Char × List Char)
  | '\\' :: 'u' :: '\x7b' :: cs =>
    some (Char.ofNat (hexValue (cs.takeWhile (· ≠ '\x7d'))), (cs.dropWhile (· ≠ '\x7d')).tail)
  | '\\' :: letter :: cs => (shownBy? letter).map (·, cs)
  | c :: cs => some (c, cs)
  | [] => none

theorem readChar?_code (c : Char) (rest : List Char) :
    readChar? ('\\' :: 'u' :: '\x7b' :: (hexDigits c.toNat ++ '\x7d' :: rest)) = some (c, rest) := by
  have hdigits : ∀ digit ∈ hexDigits c.toNat, decide (digit ≠ '\x7d') = true :=
    fun digit hmem => decide_eq_true (ne_brace_of_mem_hexDigits hmem)
  rw [readChar?, List.takeWhile_append_of_pos hdigits, List.dropWhile_append_of_pos hdigits]
  simp [hexValue_hexDigits]

theorem readChar?_plain {c : Char} (hbackslash : c ≠ '\\') (rest : List Char) :
    readChar? (c :: rest) = some (c, rest) := by
  rw [readChar?.eq_def]
  split <;> simp_all

theorem readChar?_quotedChar (c : Char) (rest : List Char) :
    readChar? (quotedChar c ++ rest) = some (c, rest) := by
  unfold quotedChar
  split
  -- All characters but those with an escape of one letter.
  case h_7 _ hbackslash _ _ _ _ =>
    split
    case isTrue => exact readChar?_plain hbackslash rest
    case isFalse =>
      rw [List.append_assoc, List.append_assoc]
      exact readChar?_code c rest
  all_goals rfl

theorem separates_quotedChar : Separates quotedChar fun _ => True :=
  Separates.of_read fun c rest _ => readChar?_quotedChar c rest

theorem quotedChar_ne_quote (c : Char) (rest left : List Char) :
    quotedChar c ++ rest ≠ '"' :: left := by
  unfold quotedChar
  split
  case h_7 hquote _ _ _ _ _ =>
    split
    · rw [List.singleton_append]
      exact fun hsame => hquote (List.head_eq_of_cons_eq hsame)
    · exact fun hsame => nomatch List.head_eq_of_cons_eq hsame
  all_goals exact fun hsame => nomatch List.head_eq_of_cons_eq hsame

theorem separates_quoted : Separates quoted fun _ => True := by
  intro first second left right _ _ hsame
  rw [quoted, quoted, List.cons_append, List.cons_append, List.append_assoc, List.append_assoc] at hsame
  have hbody := separates_quotedChar.flatMap '"' (fun _ _ => trivial) (fun _ => trivial) quotedChar_ne_quote
  obtain ⟨hchars, hrest⟩ := hbody rfl rfl (List.tail_eq_of_cons_eq hsame)
  exact ⟨hchars, List.tail_eq_of_cons_eq hrest⟩

end Text

namespace Datum

open Numeral

theorem signed_ne_quoted (value : Int) (cs left right : List Char) :
    signed value ++ left ≠ Text.quoted cs ++ right :=
  signed_ne_cons (by decide) rfl value left _

theorem separates_quoted : Separates quoted Json.EndsNumber := by
  intro first second left right hleft hright hsame
  cases first with
  | integer first =>
      cases second with
      | integer second =>
          obtain ⟨hvalue, hrest⟩ := separates_signed hleft hright hsame
          exact ⟨congrArg integer (Int64.toInt_inj.mp hvalue), hrest⟩
      | text second => exact absurd hsame (signed_ne_quoted _ _ _ _)
  | text first =>
      cases second with
      | integer second => exact absurd hsame.symm (signed_ne_quoted _ _ _ _)
      | text second =>
          obtain ⟨hvalue, hrest⟩ := Text.separates_quoted trivial trivial hsame
          exact ⟨congrArg text (String.toList_inj.mp hvalue), hrest⟩

end Datum

end RadixMap
