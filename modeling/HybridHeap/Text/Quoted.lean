import HybridHeap.Text.Hidden

/-!
# Quoted texts

How a text is shown inside a message: between double quotes, with a backslash before the quote and
the backslash, the usual letters for tab, line feed, carriage return and null, and the code in
hexadecimal for every other character that would not be seen.
-/

namespace HybridHeap.Text

/-- The digits of a number in base sixteen, lower case. -/
def hex (n : Nat) : String := String.ofList (Nat.toDigits 16 n)

/-- The form in which a quoted text holds one character. -/
def escape (c : Char) : String :=
  match c with
  | '\x00' => "\\0"
  | '\t' => "\\t"
  | '\n' => "\\n"
  | '\r' => "\\r"
  | '"' => "\\\""
  | '\\' => "\\\\"
  | c => if isHidden c then "\\u\x7b" ++ hex c.toNat ++ "\x7d" else c.toString

/-- The text between double quotes, every character in its escaped form. -/
def quoted (s : String) : String :=
  s.toList.foldl (fun shown c => shown ++ escape c) "\"" ++ "\""

end HybridHeap.Text
