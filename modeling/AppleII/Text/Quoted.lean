import AppleII.Text.Number
import AppleII.Text.Printable

/-!
# Quoted texts

A text between double quotes for a message, in which double quotes, backslashes and characters that do
not show by themselves are escaped.
-/

namespace AppleII.Text

/-- A character between quotes. -/
def quoteChar (c : Char) : List Char :=
  match c with
  | '\x00' => ['\\', '0']
  | '\t' => ['\\', 't']
  | '\r' => ['\\', 'r']
  | '\n' => ['\\', 'n']
  | '\\' => ['\\', '\\']
  | '"' => ['\\', '"']
  | c =>
    if isPrintable c then [c]
    else '\\' :: 'u' :: '\x7b' :: (lowerHex c.toNat).toList ++ ['\x7d']

/-- A text between quotes. -/
def quoted (s : String) : String := .ofList ('"' :: s.toList.flatMap quoteChar ++ ['"'])

end AppleII.Text
