import Mathlib
import RadixMap.Json.Reader
import RadixMap.Json.Writer
import RadixMap.Proofs.Exchange
import RadixMap.Proofs.Numerals
import RadixMap.Proofs.Separation

/-!
# Reading and writing objects

The writer goes on with an object without blanks, and the reader finds the members of an object however
it is written, and fails at a name that is no key. There is one lemma for each part of the text: a
character, a string, a value, a name, a member. Each part says nothing of the text after it but what
ends a number.
-/

namespace RadixMap.Json

open Numeral

/-! ### Strings -/

theorem hexDigit?_eq {c : Char} {value : Nat} (hdigit : HexDigit c value) :
    hexDigit? c = some value := by
  have hdigits : ∀ digits ∈ ["0123456789abcdef".toList, "0123456789ABCDEF".toList],
      ∀ value < digits.length, digits[value]?.bind hexDigit? = some value := by
    decide
  have hread : ∀ digits ∈ ["0123456789abcdef".toList, "0123456789ABCDEF".toList],
      digits[value]? = some c → hexDigit? c = some value := by
    intro digits hmem hc
    have hvalue := hdigits digits hmem value (List.getElem?_eq_some_iff.mp hc).1
    rwa [hc] at hvalue
  rcases hdigit with hc | hc
  · exact hread _ List.mem_cons_self hc
  · exact hread _ (List.mem_cons_of_mem _ List.mem_cons_self) hc

theorem exists_hexWord {word : Nat} {digits : List Char} (hdigits : HexWord word digits) :
    ∃ p q r s, digits = [p, q, r, s] ∧ hexWord? p q r s = some word := by
  cases hdigits with
  | digits hp hq hr hs =>
      refine ⟨_, _, _, _, rfl, ?_⟩
      simp [hexWord?, hexDigit?_eq hp, hexDigit?_eq hq, hexDigit?_eq hr, hexDigit?_eq hs]

theorem not_surrogate (c : Char) :
    isLowSurrogate c.toNat = false ∧ isHighSurrogate c.toNat = false := by
  have hvalid : c.toNat < 0xD800 ∨ (0xDFFF < c.toNat ∧ c.toNat < 0x110000) := c.valid
  simp only [isLowSurrogate, isHighSurrogate, Bool.and_eq_false_iff, decide_eq_false_iff_not]
  omega

theorem stringTail?_quote (taken cs : List Char) :
    stringTail? taken none ('"' :: cs) = some (taken.reverse, cs) := by
  unfold stringTail?
  rfl

section Strings

variable {c : Char} (taken cs : List Char)

theorem stringTail?_plain (hquote : c ≠ '"') (hbackslash : c ≠ '\\') (hcontrol : ¬ c.toNat < 0x20) :
    stringTail? taken none (c :: cs) = stringTail? (c :: taken) none cs := by
  rw [stringTail?.eq_def]
  simp [hquote, hbackslash, hcontrol]

theorem stringTail?_letter {letter : Char} (hletter : (letter, c) ∈ shortEscapes) :
    stringTail? taken none ('\\' :: letter :: cs) = stringTail? (c :: taken) none cs := by
  have hescapes : ∀ pair ∈ shortEscapes, pair.1 ≠ 'u' ∧ escaped? pair.1 = some pair.2 := by
    decide
  obtain ⟨hword, hescaped⟩ := hescapes _ hletter
  rw [stringTail?.eq_def]
  simp [hword, hescaped]

theorem stringTail?_word {digits : List Char} (hdigits : HexWord c.toNat digits) :
    stringTail? taken none ('\\' :: 'u' :: (digits ++ cs)) = stringTail? (c :: taken) none cs := by
  obtain ⟨p, q, r, s, rfl, hword⟩ := exists_hexWord hdigits
  obtain ⟨hlow, hhigh⟩ := not_surrogate c
  rw [stringTail?.eq_def]
  simp [hword, hlow, hhigh]

theorem stringTail?_surrogates {high low : Nat} {highDigits lowDigits : List Char}
    (hhigh : high < 0x400) (hlow : low < 0x400) (hc : c.toNat = 0x10000 + high * 0x400 + low)
    (hhighDigits : HexWord (0xD800 + high) highDigits)
    (hlowDigits : HexWord (0xDC00 + low) lowDigits) :
    stringTail? taken none ('\\' :: 'u' :: (highDigits ++ '\\' :: 'u' :: (lowDigits ++ cs))) =
      stringTail? (c :: taken) none cs := by
  obtain ⟨p, q, r, s, rfl, hhighWord⟩ := exists_hexWord hhighDigits
  obtain ⟨t, u, v, w, rfl, hlowWord⟩ := exists_hexWord hlowDigits
  have hfirst : isLowSurrogate (0xD800 + high) = false ∧ isHighSurrogate (0xD800 + high) = true := by
    simp only [isLowSurrogate, isHighSurrogate, Bool.and_eq_false_iff, decide_eq_false_iff_not,
      Bool.and_eq_true, decide_eq_true_eq]
    omega
  have hsecond : isLowSurrogate (0xDC00 + low) = true := by
    simp only [isLowSurrogate, Bool.and_eq_true, decide_eq_true_eq]
    omega
  have hpair : surrogatePair (0xD800 + high) (0xDC00 + low) = c := by
    rw [surrogatePair, Nat.add_sub_cancel_left, Nat.add_sub_cancel_left, ← hc, Char.ofNat_toNat]
  have htail : stringTail? taken (some (0xD800 + high)) ('\\' :: 'u' :: t :: u :: v :: w :: cs) =
      stringTail? (c :: taken) none cs := by
    rw [stringTail?.eq_def]
    simp [hlowWord, hsecond, hpair]
  rw [stringTail?.eq_def]
  simp [hhighWord, hfirst, htail]

theorem stringTail?_charText {written : List Char} (hc : CharText c written) :
    stringTail? taken none (written ++ cs) = stringTail? (c :: taken) none cs := by
  cases hc with
  | plain hquote hbackslash hcontrol => exact stringTail?_plain taken cs hquote hbackslash hcontrol
  | letter hletter => exact stringTail?_letter taken cs hletter
  | word hdigits => exact stringTail?_word taken cs hdigits
  | surrogates hhigh hlow hc hhighDigits hlowDigits =>
      rw [List.cons_append, List.cons_append, List.append_assoc]
      exact stringTail?_surrogates taken cs hhigh hlow hc hhighDigits hlowDigits

end Strings

theorem stringTail?_stringText {cs written : List Char} (hcs : StringText cs written)
    (taken rest : List Char) :
    stringTail? taken none (written ++ '"' :: rest) = some (taken.reverse ++ cs, rest) := by
  induction hcs generalizing taken with
  | nil => rw [List.nil_append, stringTail?_quote, List.append_nil]
  | @cons c cs _ _ hc _ ih =>
      rw [List.append_assoc, stringTail?_charText taken _ hc, ih, List.reverse_cons,
        List.append_assoc, List.singleton_append]

/-! ### Blanks -/

theorem skipBlank_blank {blank : List Char} (hblank : Blank blank) (cs : List Char) :
    skipBlank (blank ++ cs) = skipBlank cs := by
  refine List.dropWhile_append_of_pos fun c hmem => ?_
  simpa [isBlank, or_assoc] using hblank c hmem

theorem Blank.skipBlank_eq_nil {blank : List Char} (hblank : Blank blank) : skipBlank blank = [] := by
  rw [← List.append_nil blank, skipBlank_blank hblank]
  rfl

theorem skipBlank_cons {c : Char} (hblank : isBlank c = false) (cs : List Char) :
    skipBlank (c :: cs) = c :: cs := by
  simp [skipBlank, hblank]

theorem isBlank_of_isDigit {c : Char} (hdigit : c.isDigit = true) : isBlank c = false := by
  have hne : ∀ blank : Char, blank.isDigit = false → c ≠ blank := by
    rintro blank hblank rfl
    rw [hblank] at hdigit
    cases hdigit
  simp [isBlank, hne ' ' rfl, hne '\n' rfl, hne '\t' rfl, hne '\r' rfl]

theorem EndsNumber.blank {blank rest : List Char} (hblank : Blank blank) (hrest : EndsNumber rest) :
    EndsNumber (blank ++ rest) := by
  cases blank with
  | nil => exact hrest
  | cons c cs =>
      have hc := hblank c List.mem_cons_self
      simp only [List.mem_cons, List.not_mem_nil, or_false] at hc
      rcases hc with rfl | rfl | rfl | rfl
      all_goals exact .cons rfl rfl (cs ++ rest)

/-! ### Values -/

section Values

variable {value : Datum} {written : List Char} (hvalue : DatumText value written)

include hvalue

theorem skipBlank_datumText (rest : List Char) : skipBlank (written ++ rest) = written ++ rest := by
  cases hvalue with
  | integer value =>
      obtain ⟨c, cs, hsigned, hc⟩ := exists_cons_signed value.toInt
      have hblank : isBlank c = false := by
        rcases hc with rfl | hdigit
        · rfl
        · exact isBlank_of_isDigit hdigit
      rw [hsigned]
      exact skipBlank_cons hblank _
  | text => exact skipBlank_cons rfl _

theorem datum?_datumText {rest : List Char} (hrest : EndsNumber rest) :
    datum? (written ++ rest) = some (value, rest) := by
  cases hvalue with
  | integer value =>
      have hunquoted : ∀ cs, signed value.toInt ++ rest = '"' :: cs → False := by
        intro cs heq
        obtain ⟨c, digits, hsigned, hc⟩ := exists_cons_signed value.toInt
        rw [hsigned, List.cons_append, List.cons.injEq] at heq
        rw [heq.1] at hc
        rcases hc with hc | hc <;> cases hc
      rw [datum?.eq_2 _ hunquoted,
        integerWithin?_signed hrest value.minValue_le_toInt value.toInt_le]
      simp
  | text hbody =>
      have hread := stringTail?_stringText hbody [] rest
      simp [datum?, hread]

end Values

/-! ### Names -/

theorem key?_signed (key : Int32) (rest : List Char) :
    key? ('"' :: (signed key.toInt ++ '"' :: rest)) = some (key, rest) := by
  have hends : EndsNumber ('"' :: rest) := .cons rfl rfl rest
  have hread := integerWithin?_signed hends key.minValue_le_toInt key.toInt_le
  simp only [key?, expect?, if_true, Option.bind_eq_bind, Option.bind_some, hread,
    Int32.ofInt_toInt, Option.pure_def]

/-- Digits are read as the number they write or, with a leading zero, not at all. -/
theorem natural?_digits {digits rest : List Char} (hdigits : ∀ c ∈ digits, c.isDigit = true)
    (hrest : EndsNumber rest) :
    natural? (digits ++ rest) = none ∨
      natural? (digits ++ rest) = some (Nat.ofDigitChars 10 digits 0, rest) := by
  rw [natural?, wholeDigits?, List.takeWhile_append_of_pos hdigits,
    List.dropWhile_append_of_pos hdigits, hrest.takeWhile_isDigit, hrest.dropWhile_isDigit,
    List.append_nil]
  split
  · exact Or.inl rfl
  · exact Or.inr (by simp [hrest.continued])

theorem integer?_of_unsigned {cs : List Char} (hsign : cs.head? ≠ some '-') :
    integer? cs = (natural? cs).map (Prod.map Int.ofNat id) := by
  rw [integer?.eq_2]
  · cases natural? cs <;> rfl
  · rintro rest rfl
    exact hsign rfl

theorem faultyName_signed {value : Int}
    (hrange : value < Int32.minValue.toInt ∨ Int32.maxValue.toInt < value) :
    FaultyName (signed value) := by
  have hleast : Int32.minValue.toInt < 0 := by decide
  have hgreatest : 0 < Int32.maxValue.toInt := by decide
  have hdecimal (n : Nat) : Nat.ofDigitChars 10 (decimal n) 0 = n := by
    rw [decimal, Nat.ofDigitChars_ten_toDigits]
  cases value with
  | ofNat n =>
      rw [Int.ofNat_eq_natCast] at hrange
      rw [signed]
      refine .high (fun c hmem => isDigit_of_mem_decimal hmem) ?_
      rw [hdecimal]
      omega
  | negSucc n =>
      rw [signed]
      refine .low (fun c hmem => isDigit_of_mem_decimal hmem) ?_
      rw [hdecimal]
      omega

/-- A name that is no key is not read as an integer, or as one that is no key either. -/
theorem integer?_faultyName {name : List Char} (hname : FaultyName name) (rest : List Char) :
    ∀ read ∈ integer? (name ++ '"' :: rest),
      read.1 < Int32.minValue.toInt ∨ Int32.maxValue.toInt < read.1 := by
  have hends : EndsNumber ('"' :: rest) := .cons rfl rfl rest
  intro read hread
  cases hname with
  | high hdigits hrange =>
      have hsign : (name ++ '"' :: rest).head? ≠ some '-' := by
        cases name with
        | nil => simp
        | cons c cs =>
            have hdigit := hdigits c List.mem_cons_self
            rintro heq
            cases heq
            cases hdigit
      rw [integer?_of_unsigned hsign] at hread
      rcases natural?_digits hdigits hends with hnatural | hnatural
      · rw [hnatural] at hread
        cases hread
      · rw [hnatural] at hread
        cases hread
        exact Or.inr hrange
  | low hdigits hrange =>
      rw [List.cons_append, integer?] at hread
      rcases natural?_digits hdigits hends with hnatural | hnatural
      · rw [hnatural] at hread
        cases hread
      · rw [hnatural, Option.bind_eq_bind, Option.bind_some] at hread
        dsimp only at hread
        split at hread
        · cases hread
        · cases hread
          exact Or.inl hrange
  | other hhead =>
      obtain ⟨c, cs, hcs, hdigit, hsign⟩ : ∃ c cs, name ++ '"' :: rest = c :: cs ∧
          c.isDigit = false ∧ c ≠ '-' := by
        cases name with
        | nil => exact ⟨'"', rest, rfl, rfl, by decide⟩
        | cons c cs => exact ⟨c, cs ++ '"' :: rest, rfl, hhead c rfl⟩
      have hnatural : natural? (c :: cs) = none := by
        simp [natural?, wholeDigits?, hdigit]
      rw [hcs, integer?_of_unsigned (by simpa using hsign), hnatural] at hread
      cases hread

theorem key?_faultyName {name : List Char} (hname : FaultyName name) (rest : List Char) :
    key? ('"' :: (name ++ '"' :: rest)) = none := by
  have hoverflow : integerWithin? Int32.minValue.toInt Int32.maxValue.toInt (name ++ '"' :: rest) =
      none := by
    rw [integerWithin?, Option.filter_eq_none_iff]
    intro read hread
    rw [Bool.and_eq_true, decide_eq_true_eq, decide_eq_true_eq, not_and_or]
    exact (integer?_faultyName hname rest read hread).imp Int.not_le.mpr Int.not_le.mpr
  simp only [key?, expect?, if_true, Option.bind_eq_bind, Option.bind_some, hoverflow,
    Option.bind_none]

/-! ### Members -/

section Members

variable {written : List Char}

theorem member?_memberText {entry : Int32 × Datum} (hmember : MemberText (memberOf entry) written) :
    ∃ behind, Blank behind ∧
      ∀ rest, EndsNumber rest → member? (written ++ rest) = some (entry, behind ++ rest) := by
  cases hmember with
  | blanks hbefore hgap hspace hbehind hvalue =>
      refine ⟨_, hbehind, fun rest hends => ?_⟩
      have hread := datum?_datumText hvalue (hends.blank hbehind)
      rw [List.append_assoc, member?, skipBlank_blank hbefore]
      simp [skipBlank_cons (c := '"') rfl, key?_signed, skipBlank_blank hgap,
        skipBlank_cons (c := ':') rfl, expect?, skipBlank_blank hspace, skipBlank_datumText hvalue,
        hread]

theorem member?_faultyName {member : Member} (hmember : MemberText member written)
    (hname : FaultyName member.1) (rest : List Char) : member? (written ++ rest) = none := by
  cases hmember with
  | blanks hbefore =>
      rw [List.append_assoc, member?, skipBlank_blank hbefore]
      simp [skipBlank_cons (c := '"') rfl, key?_faultyName hname]

theorem head?_membersText {members : List Member} (hmembers : MembersText members written)
    (rest : List Char) : (skipBlank (written ++ rest)).head? = some '"' := by
  have hmember : ∀ {member : Member} {written : List Char}, MemberText member written →
      ∀ rest, (skipBlank (written ++ rest)).head? = some '"' := by
    rintro _ _ ⟨hbefore⟩ rest
    rw [List.append_assoc, skipBlank_blank hbefore, List.cons_append, skipBlank_cons rfl,
      List.head?_cons]
  cases hmembers with
  | last hlast => exact hmember hlast rest
  | cons hfirst =>
      rw [List.append_assoc]
      exact hmember hfirst _

end Members

/-! ### The reader -/

/-- The members that are ahead of a place, by the text from there on. -/
inductive Ahead : Place → List Member → Prop
  | done {first : Bool} {inside behind : List Char} (hinside : Blank inside) (hbehind : Blank behind) :
      Ahead ⟨first, inside ++ '\x7d' :: behind⟩ []
  | first {members : List Member} {written behind : List Char}
      (hmembers : MembersText members written) (hbehind : Blank behind) :
      Ahead ⟨true, written ++ '\x7d' :: behind⟩ members
  | later {members : List Member} {gap written behind : List Char} (hgap : Blank gap)
      (hmembers : MembersText members written) (hbehind : Blank behind) :
      Ahead ⟨false, gap ++ ',' :: (written ++ '\x7d' :: behind)⟩ members

theorem Ahead.exists_member {place : Place} {member : Member} {members : List Member}
    (hahead : Ahead place (member :: members)) :
    ∃ written behind, MembersText (member :: members) written ∧ Blank behind ∧
      place.next = match member? (written ++ '\x7d' :: behind) with
        | some (entry, rest) => .ok (some (entry, ⟨false, rest⟩))
        | none => .error .malformed := by
  cases hahead with
  | @first _ written behind hmembers hbehind =>
      refine ⟨written, behind, hmembers, hbehind, ?_⟩
      rw [Place.next, if_neg (by rw [head?_membersText hmembers]; decide)]
      rfl
  | @later _ gap written behind hgap hmembers hbehind =>
      refine ⟨written, behind, hmembers, hbehind, ?_⟩
      have hcomma : skipBlank (gap ++ ',' :: (written ++ '\x7d' :: behind)) =
          ',' :: (written ++ '\x7d' :: behind) := by
        rw [skipBlank_blank hgap, skipBlank_cons rfl]
      rw [Place.next, Place.member, hcomma, if_neg (by simp)]
      rfl

theorem Ahead.next_entry {place : Place} {entry : Int32 × Datum} {members : List Member}
    (hahead : Ahead place (memberOf entry :: members)) :
    ∃ next, place.next = .ok (some (entry, next)) ∧ Ahead next members := by
  obtain ⟨written, behind, hmembers, hbehind, hnext⟩ := hahead.exists_member
  rw [hnext]
  cases hmembers with
  | last hmember =>
      obtain ⟨gap, hgap, hread⟩ := member?_memberText hmember
      rw [hread _ (.cons rfl rfl behind)]
      exact ⟨_, rfl, .done hgap hbehind⟩
  | cons hmember hothers =>
      obtain ⟨gap, hgap, hread⟩ := member?_memberText hmember
      rw [List.append_assoc, List.cons_append, hread _ (.cons rfl rfl _)]
      exact ⟨_, rfl, .later hgap hothers hbehind⟩

theorem Ahead.next_faulty {place : Place} {member : Member} {members : List Member}
    (hahead : Ahead place (member :: members)) (hname : FaultyName member.1) :
    place.next = .error .malformed := by
  obtain ⟨written, behind, hmembers, -, hnext⟩ := hahead.exists_member
  rw [hnext]
  cases hmembers with
  | last hmember => rw [member?_faultyName hmember hname]
  | cons hmember => rw [List.append_assoc, member?_faultyName hmember hname]

theorem Ahead.finished {place : Place} (hahead : Ahead place []) :
    place.next = .ok none ∧ place.finish = .ok () := by
  cases hahead with
  | @done first inside behind hinside hbehind =>
      have hbrace : skipBlank (inside ++ '\x7d' :: behind) = '\x7d' :: behind := by
        rw [skipBlank_blank hinside, skipBlank_cons rfl]
      constructor
      · rw [Place.next, hbrace]
        rfl
      · simp [Place.finish, hbrace, expect?, hbehind.skipBlank_eq_nil]
  | first hmembers => cases hmembers
  | later _ hmembers => cases hmembers

theorem openObject_objectText {members : List Member} {text : String}
    (htext : ObjectText members text.toList) (expected : String) :
    ∃ place, openObject text expected = .ok place ∧ Ahead place members := by
  rw [openObject]
  generalize text.toList = cs at htext
  cases htext with
  | empty hbefore hinside hbehind =>
      rw [skipBlank_blank hbefore, skipBlank_cons rfl]
      exact ⟨_, rfl, .done hinside hbehind⟩
  | members hbefore hmembers hbehind =>
      rw [skipBlank_blank hbefore, skipBlank_cons rfl]
      exact ⟨_, rfl, .first hmembers hbehind⟩

theorem reader_readsJson : reader.ReadsJson :=
  ⟨Ahead, {
    start := openObject_objectText
    entry := Ahead.next_entry
    faulty := fun hahead hname => ⟨_, hahead.next_faulty hname⟩
    finish := Ahead.finished }⟩

/-! ### The writer -/

theorem intercalate_concat (entries : List (Int32 × Datum)) (entry : Int32 × Datum) :
    [','].intercalate ((entries ++ [entry]).map writtenMember) =
      [','].intercalate (entries.map writtenMember) ++
        ((if entries.isEmpty then [] else [',']) ++ writtenMember entry) := by
  cases entries with
  | nil => simp
  | cons first others =>
      rw [List.cons_append, intercalate_map_cons, intercalate_map_cons, List.flatMap_append]
      simp

theorem writer_writesJson : writer.WritesJson := by
  refine ⟨fun draft _ entries => draft.first = entries.isEmpty ∧
    draft.text.toList = '\x7b' :: [','].intercalate (entries.map writtenMember), ?start, ?entry, ?finish⟩
  case start => exact fun _ => ⟨_, rfl, rfl, rfl⟩
  case entry =>
    rintro draft _ entries ⟨hfirst, htext⟩ - key value
    refine ⟨draft.extend (key, value), rfl, by simp [Draft.extend], ?_⟩
    rw [intercalate_concat]
    cases hempty : entries.isEmpty <;> simp [Draft.extend, hfirst, htext, hempty]
  case finish =>
    rintro draft entries ⟨-, htext⟩
    refine congrArg Except.ok (String.toList_inj.mp ?_)
    simp [htext, writtenObject]

end RadixMap.Json
