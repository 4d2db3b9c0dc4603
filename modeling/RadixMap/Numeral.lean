/-!
# Numerals

The digits of numbers in the bases that this library's texts are written in.
-/
namespace RadixMap.Numeral

/-- Decimal digits without leading zeros; zero is the single digit `0`. -/
def decimal (n : Nat) : List Char :=
  Nat.toDigits 10 n

/-- The decimal digits of the magnitude, after a minus sign when the number is negative. -/
def signed : Int → List Char
  | .ofNat n => decimal n
  | .negSucc n => '-' :: decimal (n + 1)

/-- Lower-case hexadecimal digits without leading zeros. -/
def hexDigits (n : Nat) : List Char :=
  Nat.toDigits 16 n

/-- Binary digits, filled with zeros on the left up to `width` of them. -/
def binary (width n : Nat) : List Char :=
  (Nat.toDigits 2 n).leftpad width '0'

/-- A number as messages show it: decimal. -/
def text (n : Nat) : String :=
  String.ofList (decimal n)

/-- A number as messages show bit patterns: `0x` and hexadecimal digits. -/
def hexText (n : Nat) : String :=
  "0x" ++ String.ofList (hexDigits n)

/-- A number in a column of the given width, flush right. -/
def column (width n : Nat) : String :=
  String.ofList ((decimal n).leftpad width ' ')

end RadixMap.Numeral
