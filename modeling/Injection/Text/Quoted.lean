import Injection.Text.Numbered

/-!
Text between quotes, as records and lists show it. A quote and a backslash are escaped, four control characters have
letters of their own, and what cannot be seen is given by its number in braces.
-/

namespace Injection.Text

def hex (n : Nat) : List Char := Nat.toDigits 16 n

/-- How one character stands inside quotes. -/
def quotedChar : Char → List Char
  | '"' => ['\\', '"']
  | '\\' => ['\\', '\\']
  | '\n' => ['\\', 'n']
  | '\r' => ['\\', 'r']
  | '\t' => ['\\', 't']
  | '\x00' => ['\\', '0']
  | c => if isNumbered c then ['\\', 'u', '\x7b'] ++ hex c.toNat ++ ['\x7d'] else [c]

def quoted (s : String) : String := String.ofList ('"' :: s.toList.flatMap quotedChar ++ ['"'])

def quotedList (ss : List String) : String := "[" ++ ", ".intercalate (ss.map quoted) ++ "]"

end Injection.Text
