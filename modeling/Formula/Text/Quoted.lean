/-
Text between double quotes, for display. Quote and backslash are escaped, as are the usual control characters by a letter;
any other hidden character is written by its code in lower-case hexadecimal; everything else stands as it is.
-/
import Formula.Text.Hidden

namespace Formula.Text

/-- a character by its code -/
def codeEscape (c : Char) : List Char :=
  '\\' :: 'u' :: '\x7b' :: (Nat.toDigits 16 c.toNat ++ ['\x7d'])

/-- a character as it stands between the quotes -/
def quoteChar (c : Char) : List Char :=
  match c with
  | '\x00' => ['\\', '0']
  | '\t' => ['\\', 't']
  | '\r' => ['\\', 'r']
  | '\n' => ['\\', 'n']
  | '"' => ['\\', '"']
  | '\\' => ['\\', '\\']
  | c => if isHidden c then codeEscape c else [c]

/-- `text` between double quotes -/
def quoted (text : String) : String :=
  String.ofList ('"' :: (text.toList.flatMap quoteChar ++ ['"']))

end Formula.Text
