import Mathlib
import RadixMap.Json.Writer

/-!
# The grammar of JSON objects

Which texts write an object of integers and strings, said without a reader: there may be blanks between
any two tokens, and a string may write each of its characters as it is, by a short escape, by its code
point, or by two surrogates. The object without blanks is one of them.
-/

namespace RadixMap.Json

open Numeral

/-! ### Strings -/

/-- A hexadecimal digit, in lower or upper case. -/
def HexDigit (c : Char) (value : Nat) : Prop :=
  "0123456789abcdef".toList[value]? = some c ∨ "0123456789ABCDEF".toList[value]? = some c

instance (c : Char) (value : Nat) : Decidable (HexDigit c value) :=
  inferInstanceAs (Decidable (_ ∨ _))

/-- Four hexadecimal digits that write a number. -/
inductive HexWord : Nat → List Char → Prop
  | digits {p q r s : Char} {first second third fourth : Nat} (hp : HexDigit p first)
      (hq : HexDigit q second) (hr : HexDigit r third) (hs : HexDigit s fourth) :
      HexWord (((first * 16 + second) * 16 + third) * 16 + fourth) [p, q, r, s]

/-- The letters that stand for a character after a backslash, each with that character. -/
def shortEscapes : List (Char × Char) :=
  [('"', '"'), ('\\', '\\'), ('/', '/'), ('b', '\x08'), ('f', '\x0c'), ('n', '\n'), ('r', '\r'),
    ('t', '\t')]

/-- The ways to write a character within a string. -/
inductive CharText : Char → List Char → Prop
  | plain {c : Char} (hquote : c ≠ '"') (hbackslash : c ≠ '\\') (hcontrol : ¬ c.toNat < 0x20) :
      CharText c [c]
  | letter {letter c : Char} (hletter : (letter, c) ∈ shortEscapes) : CharText c ['\\', letter]
  | word {c : Char} {digits : List Char} (hdigits : HexWord c.toNat digits) :
      CharText c ('\\' :: 'u' :: digits)
  | surrogates {c : Char} {high low : Nat} {highDigits lowDigits : List Char} (hhigh : high < 0x400)
      (hlow : low < 0x400) (hc : c.toNat = 0x10000 + high * 0x400 + low)
      (hhighDigits : HexWord (0xD800 + high) highDigits)
      (hlowDigits : HexWord (0xDC00 + low) lowDigits) :
      CharText c ('\\' :: 'u' :: (highDigits ++ '\\' :: 'u' :: lowDigits))

/-- The ways to write characters between the quotes of a string. -/
inductive StringText : List Char → List Char → Prop
  | nil : StringText [] []
  | cons {c : Char} {cs written rest : List Char} (hc : CharText c written)
      (hcs : StringText cs rest) : StringText (c :: cs) (written ++ rest)

inductive DatumText : Datum → List Char → Prop
  | integer (value : Int64) : DatumText (.integer value) (signed value.toInt)
  | text {value : String} {body : List Char} (hbody : StringText value.toList body) :
      DatumText (.text value) ('"' :: (body ++ ['"']))

/-! ### Objects -/

/-- Any number of blanks. -/
def Blank (cs : List Char) : Prop :=
  ∀ c ∈ cs, c ∈ [' ', '\n', '\t', '\r']

theorem blank_nil : Blank [] :=
  fun _ hmem => nomatch hmem

/-- The characters between the quotes of a name, with the value of the member. -/
abbrev Member := List Char × Datum

inductive MemberText : Member → List Char → Prop
  | blanks {name written before gap space behind : List Char} {value : Datum} (hbefore : Blank before)
      (hgap : Blank gap) (hspace : Blank space) (hbehind : Blank behind)
      (hvalue : DatumText value written) :
      MemberText (name, value)
        (before ++ '"' :: (name ++ '"' :: (gap ++ ':' :: (space ++ (written ++ behind)))))

/-- Members with a comma between any two. -/
inductive MembersText : List Member → List Char → Prop
  | last {member : Member} {written : List Char} (hmember : MemberText member written) :
      MembersText [member] written
  | cons {member : Member} {others : List Member} {written rest : List Char}
      (hmember : MemberText member written) (hothers : MembersText others rest) :
      MembersText (member :: others) (written ++ ',' :: rest)

inductive ObjectText : List Member → List Char → Prop
  | empty {before inside behind : List Char} (hbefore : Blank before) (hinside : Blank inside)
      (hbehind : Blank behind) :
      ObjectText [] (before ++ '\x7b' :: (inside ++ '\x7d' :: behind))
  | members {members : List Member} {before written behind : List Char} (hbefore : Blank before)
      (hmembers : MembersText members written) (hbehind : Blank behind) :
      ObjectText members (before ++ '\x7b' :: (written ++ '\x7d' :: behind))

/-- The member for an entry, named by the key in decimal. -/
def memberOf (entry : Int32 × Datum) : Member :=
  (signed entry.1.toInt, entry.2)

/-- A name that is no key: a decimal past the ends of the range of keys, or a text that starts with
neither a digit nor a minus sign. -/
inductive FaultyName : List Char → Prop
  | high {digits : List Char} (hdigits : ∀ c ∈ digits, c.isDigit = true)
      (hrange : Int32.maxValue.toInt < Nat.ofDigitChars 10 digits 0) : FaultyName digits
  | low {digits : List Char} (hdigits : ∀ c ∈ digits, c.isDigit = true)
      (hrange : -(Nat.ofDigitChars 10 digits 0 : Int) < Int32.minValue.toInt) :
      FaultyName ('-' :: digits)
  | other {name : List Char} (hname : ∀ c ∈ name.head?, c.isDigit = false ∧ c ≠ '-') :
      FaultyName name

/-! ### Written objects -/

/-- The object of some entries, without blanks. -/
def writtenObject (entries : List (Int32 × Datum)) : List Char :=
  ['\x7b'] ++ [','].intercalate (entries.map writtenMember) ++ ['\x7d']

theorem hexDigit_digitChar : ∀ digit < 16, HexDigit digit.digitChar digit := by
  decide

theorem hexWord_control {n : Nat} (hcontrol : n < 0x20) :
    HexWord n ((hexDigits n).leftpad 4 '0') := by
  have hdigits : ∀ n < 0x20,
      (hexDigits n).leftpad 4 '0' = ['0', '0', (n / 16).digitChar, (n % 16).digitChar] := by
    decide
  have hzero : HexDigit '0' 0 := hexDigit_digitChar 0 (by decide)
  have hword : HexWord (((0 * 16 + 0) * 16 + n / 16) * 16 + n % 16)
      ['0', '0', (n / 16).digitChar, (n % 16).digitChar] :=
    .digits hzero hzero (hexDigit_digitChar _ (by omega)) (hexDigit_digitChar _ (by omega))
  rw [hdigits n hcontrol]
  rwa [show ((0 * 16 + 0) * 16 + n / 16) * 16 + n % 16 = n by omega] at hword

theorem charText_written (c : Char) : CharText c (writtenChar c) := by
  unfold writtenChar
  split
  -- All characters but those with a short escape.
  case h_8 hquote hbackslash _ _ _ _ _ =>
    split
    case isTrue hcontrol => exact .word (hexWord_control hcontrol)
    case isFalse hcontrol => exact .plain hquote hbackslash hcontrol
  all_goals exact .letter (by decide)

theorem stringText_written (cs : List Char) : StringText cs (cs.flatMap writtenChar) := by
  induction cs with
  | nil => exact .nil
  | cons c cs ih => exact .cons (charText_written c) ih

theorem datumText_written (value : Datum) : DatumText value (writtenDatum value) := by
  cases value with
  | integer value => exact .integer value
  | text value => exact .text (stringText_written value.toList)

theorem memberText_written (entry : Int32 × Datum) :
    MemberText (memberOf entry) (writtenMember entry) := by
  have hmember : MemberText (memberOf entry) _ :=
    .blanks blank_nil blank_nil blank_nil blank_nil (datumText_written entry.2)
  simpa [writtenMember] using hmember

theorem membersText_written (entry : Int32 × Datum) (others : List (Int32 × Datum)) :
    MembersText ((entry :: others).map memberOf)
      ([','].intercalate ((entry :: others).map writtenMember)) := by
  induction others generalizing entry with
  | nil =>
      rw [List.map_singleton, List.map_singleton, List.intercalate_singleton]
      exact .last (memberText_written entry)
  | cons next others ih =>
      have hothers := ih next
      simp only [List.map_cons, List.intercalate_cons_cons, List.append_assoc] at hothers ⊢
      exact .cons (memberText_written entry) hothers

theorem objectText_written (entries : List (Int32 × Datum)) :
    ObjectText (entries.map memberOf) (writtenObject entries) := by
  cases entries with
  | nil => exact .empty blank_nil blank_nil blank_nil
  | cons entry others => exact .members blank_nil (membersText_written entry others) blank_nil

example : writtenObject [(-2, .text "a\"\x01"), (0, .integer (-7))] =
    "\x7b\"-2\":\"a\\\"\\u0001\",\"0\":-7\x7d".toList := by
  decide

end RadixMap.Json
