import RadixMap.Datum
import RadixMap.Json.Token
import RadixMap.Map.Exchange

/-!
# Maps read from JSON

An object whose names are keys in decimal and whose values are integers of 64 bits or strings. A member
is read when it is asked for; the text after it is looked at only then.
-/
namespace RadixMap.Json

inductive ReadError
  | malformed
  /-- The text does not start as what was expected of it. -/
  | unexpected (expected : String)
  deriving DecidableEq, Repr

/-- Reads a character that has to come next. -/
def expect? (expected : Char) : List Char → Option (List Char)
  | c :: cs => if c = expected then some cs else none
  | [] => none

/-- Reads the name of a member: a key between quotes. -/
def key? (cs : List Char) : Option (Int32 × List Char) := do
  let cs ← expect? '"' cs
  let (key, cs) ← integerWithin? Int32.minValue.toInt Int32.maxValue.toInt cs
  let cs ← expect? '"' cs
  return (Int32.ofInt key, cs)

def datum? : List Char → Option (Datum × List Char)
  | '"' :: cs => do
    let (text, cs) ← stringTail? [] none cs
    return (.text (String.ofList text), cs)
  | cs => do
    let (value, cs) ← integerWithin? Int64.minValue.toInt Int64.maxValue.toInt cs
    return (.integer (Int64.ofInt value), cs)

def member? (cs : List Char) : Option ((Int32 × Datum) × List Char) := do
  let (key, cs) ← key? (skipBlank cs)
  let cs ← expect? ':' (skipBlank cs)
  let (value, cs) ← datum? (skipBlank cs)
  return ((key, value), cs)

/-! ### Every part takes some of the text -/

section Length

variable {cs rest : List Char}

theorem length_skipBlank_le (cs : List Char) : (skipBlank cs).length ≤ cs.length :=
  (List.dropWhile_sublist isBlank).length_le

theorem length_expect?_lt {expected : Char} (hread : expect? expected cs = some rest) :
    rest.length < cs.length := by
  cases cs with
  | nil => cases hread
  | cons c cs =>
      rw [expect?] at hread
      split at hread
      · cases hread
        exact Nat.lt_succ_self _
      · cases hread

theorem length_natural?_le {value : Nat} (hread : natural? cs = some (value, rest)) :
    rest.length ≤ cs.length := by
  simp only [natural?, wholeDigits?] at hread
  split at hread
  · cases hread
  · simp only [Option.bind_eq_bind, Option.bind_some] at hread
    split at hread
    · cases hread
    · cases hread
      exact (List.dropWhile_sublist _).length_le

theorem length_integer?_le {value : Int} (hread : integer? cs = some (value, rest)) :
    rest.length ≤ cs.length := by
  unfold integer? at hread
  split at hread
  · obtain ⟨⟨magnitude, tail⟩, hnatural, hread⟩ := Option.bind_eq_some_iff.mp hread
    have hle := length_natural?_le hnatural
    dsimp only at hread
    split at hread
    · cases hread
    · cases hread
      exact Nat.le_succ_of_le hle
  · obtain ⟨⟨magnitude, tail⟩, hnatural, hread⟩ := Option.bind_eq_some_iff.mp hread
    cases hread
    exact length_natural?_le hnatural

theorem length_integerWithin?_le {low high value : Int}
    (hread : integerWithin? low high cs = some (value, rest)) : rest.length ≤ cs.length :=
  length_integer?_le (Option.filter_eq_some_iff.mp hread).1

theorem length_stringTail?_le {taken text : List Char} {high? : Option Nat}
    (hread : stringTail? taken high? cs = some (text, rest)) : rest.length ≤ cs.length := by
  fun_induction stringTail? taken high? cs <;>
    grind [Option.bind_eq_some_iff]

theorem length_datum?_le {value : Datum} (hread : datum? cs = some (value, rest)) :
    rest.length ≤ cs.length := by
  unfold datum? at hread
  split at hread
  · obtain ⟨⟨text, tail⟩, hstring, hread⟩ := Option.bind_eq_some_iff.mp hread
    cases hread
    exact Nat.le_succ_of_le (length_stringTail?_le hstring)
  · obtain ⟨⟨number, tail⟩, hnumber, hread⟩ := Option.bind_eq_some_iff.mp hread
    cases hread
    exact length_integerWithin?_le hnumber

theorem length_key?_lt {key : Int32} (hread : key? cs = some (key, rest)) :
    rest.length < cs.length := by
  obtain ⟨afterQuote, hquote, hread⟩ := Option.bind_eq_some_iff.mp hread
  obtain ⟨⟨value, afterDigits⟩, hdigits, hread⟩ := Option.bind_eq_some_iff.mp hread
  obtain ⟨afterName, hname, hread⟩ := Option.bind_eq_some_iff.mp hread
  cases hread
  calc rest.length < afterDigits.length := length_expect?_lt hname
    _ ≤ afterQuote.length := length_integerWithin?_le hdigits
    _ ≤ cs.length := Nat.le_of_lt (length_expect?_lt hquote)

theorem length_member?_lt {entry : Int32 × Datum} (hread : member? cs = some (entry, rest)) :
    rest.length < cs.length := by
  obtain ⟨⟨key, afterKey⟩, hkey, hread⟩ := Option.bind_eq_some_iff.mp hread
  obtain ⟨afterColon, hcolon, hread⟩ := Option.bind_eq_some_iff.mp hread
  obtain ⟨⟨value, afterValue⟩, hvalue, hread⟩ := Option.bind_eq_some_iff.mp hread
  cases hread
  calc rest.length ≤ (skipBlank afterColon).length := length_datum?_le hvalue
    _ ≤ afterColon.length := length_skipBlank_le _
    _ ≤ (skipBlank afterKey).length := Nat.le_of_lt (length_expect?_lt hcolon)
    _ ≤ afterKey.length := length_skipBlank_le _
    _ < (skipBlank cs).length := length_key?_lt hkey
    _ ≤ cs.length := length_skipBlank_le _

end Length

/-! ### Objects -/

/-- A place within an object: whether a member would be the first one, and the rest of the text. -/
structure Place where
  first : Bool
  rest : List Char

namespace Place

/-- The text from the next member on, without the comma that has to stand before all but the first. -/
def member (place : Place) : Option (List Char) :=
  if place.first then some place.rest else expect? ',' (skipBlank place.rest)

def next (place : Place) : Except ReadError (Option ((Int32 × Datum) × Place)) :=
  if (skipBlank place.rest).head? = some '\x7d' then
    .ok none
  else
    match place.member >>= member? with
    | some (entry, rest) => .ok (some (entry, ⟨false, rest⟩))
    | none => .error .malformed

/-- Nothing but blanks may stand after the brace that closes an object. -/
def finish (place : Place) : Except ReadError Unit :=
  match (expect? '\x7d' (skipBlank place.rest)).map skipBlank with
  | some [] => .ok ()
  | _ => .error .malformed

theorem length_next_lt {place rest : Place} {entry : Int32 × Datum}
    (hnext : place.next = .ok (some (entry, rest))) : rest.rest.length < place.rest.length := by
  unfold next at hnext
  split at hnext
  · cases hnext
  · split at hnext
    case h_2 => cases hnext
    case h_1 cs hread =>
      cases hnext
      obtain ⟨start, hstart, hmember⟩ := Option.bind_eq_some_iff.mp hread
      refine Nat.lt_of_lt_of_le (length_member?_lt hmember) ?_
      unfold member at hstart
      split at hstart
      · cases hstart
        exact Nat.le_refl _
      · exact Nat.le_trans (Nat.le_of_lt (length_expect?_lt hstart)) (length_skipBlank_le _)

end Place

/-- Opens the object that a text starts with. -/
def openObject (text expected : String) : Except ReadError Place :=
  match expect? '\x7b' (skipBlank text.toList) with
  | some cs => .ok ⟨true, cs⟩
  | none => .error (.unexpected expected)

def reader : MapReader String Datum ReadError where
  State := Place
  start := openObject
  next := Place.next
  finish := Place.finish
  limit place := place.rest.length
  limit_next := Place.length_next_lt

end RadixMap.Json
