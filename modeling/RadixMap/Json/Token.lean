/-!
# Tokens of JSON

Integers and strings, each read from the front of a text and returned beside the rest of it.
-/
namespace RadixMap.Json

def isBlank (c : Char) : Bool :=
  c = ' ' || c = '\n' || c = '\t' || c = '\r'

def skipBlank (cs : List Char) : List Char :=
  cs.dropWhile isBlank

/-- Whether a text that follows digits makes them part of a number with a fraction or an exponent. -/
def continuesNumber : List Char → Bool
  | c :: _ => c = '.' || c = 'e' || c = 'E'
  | [] => false

/-- Reads the digits of a whole number, which have no leading zeros. -/
def wholeDigits? (cs : List Char) : Option (List Char × List Char) :=
  let digits := cs.takeWhile Char.isDigit
  if digits = [] ∨ (digits.head? = some '0' ∧ 1 < digits.length) then
    none
  else
    some (digits, cs.dropWhile Char.isDigit)

/-- Reads a number without sign, fraction, exponent or leading zeros. -/
def natural? (cs : List Char) : Option (Nat × List Char) := do
  let (digits, rest) ← wholeDigits? cs
  if continuesNumber rest then none else some (Nat.ofDigitChars 10 digits 0, rest)

/-- Reads an integer. Minus zero is none: its sign tells it from zero, which an integer cannot. -/
def integer? : List Char → Option (Int × List Char)
  | '-' :: cs => do
    let (magnitude, rest) ← natural? cs
    if magnitude = 0 then none else some (-(magnitude : Int), rest)
  | cs => do
    let (value, rest) ← natural? cs
    return ((value : Int), rest)

/-- Reads an integer of the range from `low` to `high`. -/
def integerWithin? (low high : Int) (cs : List Char) : Option (Int × List Char) :=
  (integer? cs).filter fun (value, _) => low ≤ value && value ≤ high

def hexDigit? (c : Char) : Option Nat :=
  if '0' ≤ c ∧ c ≤ '9' then
    some (c.toNat - '0'.toNat)
  else if 'a' ≤ c ∧ c ≤ 'f' then
    some (c.toNat - 'a'.toNat + 10)
  else if 'A' ≤ c ∧ c ≤ 'F' then
    some (c.toNat - 'A'.toNat + 10)
  else
    none

/-- The number that four hexadecimal digits write. -/
def hexWord? (a b c d : Char) : Option Nat := do
  return (((← hexDigit? a) * 16 + (← hexDigit? b)) * 16 + (← hexDigit? c)) * 16 + (← hexDigit? d)

/-- The character that a letter after a backslash stands for. -/
def escaped? : Char → Option Char
  | '"' => some '"'
  | '\\' => some '\\'
  | '/' => some '/'
  | 'b' => some '\x08'
  | 'f' => some '\x0c'
  | 'n' => some '\n'
  | 'r' => some '\r'
  | 't' => some '\t'
  | _ => none

def isHighSurrogate (word : Nat) : Bool :=
  0xD800 ≤ word && word ≤ 0xDBFF

def isLowSurrogate (word : Nat) : Bool :=
  0xDC00 ≤ word && word ≤ 0xDFFF

/-- The character past U+FFFF that two surrogates write. -/
def surrogatePair (high low : Nat) : Char :=
  Char.ofNat (0x10000 + (high - 0xD800) * 0x400 + (low - 0xDC00))

/-- Reads a string whose opening quote is behind; `taken` are the characters read so far, the last one
first. Right after the escape of a high surrogate, `high?` holds it and only the escape of a low one
can follow. -/
def stringTail? (taken : List Char) (high? : Option Nat) : List Char → Option (List Char × List Char)
  | [] => none
  | c :: cs =>
    match high? with
    | some high =>
      match c, cs with
      | '\\', 'u' :: p :: q :: r :: s :: cs => do
        let low ← hexWord? p q r s
        if isLowSurrogate low then stringTail? (surrogatePair high low :: taken) none cs else none
      | _, _ => none
    | none =>
      if c = '"' then
        some (taken.reverse, cs)
      else if c = '\\' then
        match cs with
        | 'u' :: p :: q :: r :: s :: cs => do
          let word ← hexWord? p q r s
          if isLowSurrogate word then
            none
          else if isHighSurrogate word then
            stringTail? taken (some word) cs
          else
            stringTail? (Char.ofNat word :: taken) none cs
        | letter :: cs => do stringTail? ((← escaped? letter) :: taken) none cs
        | [] => none
      else if c.toNat < 0x20 then
        none
      else
        stringTail? (c :: taken) none cs

end RadixMap.Json
