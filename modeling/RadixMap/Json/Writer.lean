import RadixMap.Datum
import RadixMap.Map.Exchange

/-!
# Maps written as JSON

One object without blanks, with a member for each entry. The name of a member is the key in decimal.
-/
namespace RadixMap.Json

def writtenChar (c : Char) : List Char :=
  match c with
  | '"' => ['\\', '"']
  | '\\' => ['\\', '\\']
  | '\x08' => ['\\', 'b']
  | '\x0c' => ['\\', 'f']
  | '\n' => ['\\', 'n']
  | '\r' => ['\\', 'r']
  | '\t' => ['\\', 't']
  | c =>
    if c.toNat < 0x20 then
      ['\\', 'u'] ++ (Numeral.hexDigits c.toNat).leftpad 4 '0'
    else
      [c]

def writtenString (cs : List Char) : List Char :=
  '"' :: cs.flatMap writtenChar ++ ['"']

def writtenDatum : Datum → List Char
  | .integer value => Numeral.signed value.toInt
  | .text value => writtenString value.toList

def writtenMember (entry : Int32 × Datum) : List Char :=
  '"' :: Numeral.signed entry.1.toInt ++ ['"', ':'] ++ writtenDatum entry.2

/-- A text that is being written, and whether a member would be the first one. -/
structure Draft where
  first : Bool
  text : String

def Draft.extend (draft : Draft) (entry : Int32 × Datum) : Draft :=
  ⟨false, draft.text ++ (if draft.first then "" else ",") ++ String.ofList (writtenMember entry)⟩

def writer : MapWriter Datum String Empty where
  State := Draft
  start _ := .ok ⟨true, "\x7b"⟩
  entry draft key value := .ok (draft.extend (key, value))
  finish draft := .ok (draft.text ++ "\x7d")

end RadixMap.Json
