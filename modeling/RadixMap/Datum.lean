import RadixMap.Text.Quoted

/-!
# Data

Integers and texts, the values of maps that are listed, written and read as text.
-/
namespace RadixMap

inductive Datum
  | integer (value : Int64)
  | text (value : String)
  deriving DecidableEq, Repr

namespace Datum

/-- An integer in decimal, a text as it is. -/
def display : Datum → String
  | integer value => String.ofList (Numeral.signed value.toInt)
  | text value => value

/-- An integer in decimal, a text in quotes. -/
def quoted : Datum → List Char
  | integer value => Numeral.signed value.toInt
  | text value => Text.quoted value.toList

end Datum

end RadixMap
