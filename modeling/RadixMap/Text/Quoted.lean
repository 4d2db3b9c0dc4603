import RadixMap.Numeral
import RadixMap.Text.Printable

/-!
# Quoted text

Characters between double quotes, with an escape for each character that would end the quotation,
start an escape, or not show.
-/
namespace RadixMap.Text

def quotedChar (c : Char) : List Char :=
  match c with
  | '"' => ['\\', '"']
  | '\\' => ['\\', '\\']
  | '\n' => ['\\', 'n']
  | '\r' => ['\\', 'r']
  | '\t' => ['\\', 't']
  | '\x00' => ['\\', '0']
  | c =>
    if isPrintable c then
      [c]
    else
      ['\\', 'u', '\x7b'] ++ Numeral.hexDigits c.toNat ++ ['\x7d']

def quoted (cs : List Char) : List Char :=
  '"' :: cs.flatMap quotedChar ++ ['"']

end RadixMap.Text
