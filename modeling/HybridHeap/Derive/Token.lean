/-!
# Tokens of Rust source

Source text as tokens that are grouped by their delimiters. A punctuation character is a token of
its own that knows whether it is joined to the next one, so that `::` can be told from two colons,
and `>>` can close two lists. Comments and blanks separate tokens and are left out.
-/

namespace HybridHeap.Derive

/-- The delimiters that come in pairs. -/
inductive Delimiter where
  | paren
  | bracket
  | brace
  deriving DecidableEq

/-- The opening character. -/
def Delimiter.opening : Delimiter → Char
  | paren => '('
  | bracket => '['
  | brace => '\x7b'

/-- The closing character. -/
def Delimiter.closing : Delimiter → Char
  | paren => ')'
  | bracket => ']'
  | brace => '\x7d'

/-- The delimiter that a character opens. -/
def Delimiter.ofOpening? (c : Char) : Option Delimiter :=
  [paren, bracket, brace].find? (·.opening == c)

/-- The delimiter that a character closes. -/
def Delimiter.ofClosing? (c : Char) : Option Delimiter :=
  [paren, bracket, brace].find? (·.closing == c)

/-- The text between the delimiters. -/
def Delimiter.around (d : Delimiter) (text : String) : String :=
  d.opening.toString ++ text ++ d.closing.toString

/-- A token, or a delimited group of tokens. -/
inductive Tree where
  /-- An identifier or keyword, with `r#` in front if it is raw. -/
  | word (name : String)
  /-- A lifetime, with its quote. -/
  | lifetime (name : String)
  /-- A punctuation character, and whether another one follows at once. -/
  | punct (c : Char) (isJoined : Bool)
  /-- A literal as it is written. -/
  | literal (text : String)
  | group (d : Delimiter) (content : List Tree)

mutual

/-- The tokens as text, without anything between them. -/
def Tree.text : Tree → String
  | .word name => name
  | .lifetime name => name
  | .punct c _ => c.toString
  | .literal text => text
  | .group d content => d.around (textOf content)

/-- The text of tokens in a row. -/
def textOf : List Tree → String
  | [] => ""
  | t :: rest => t.text ++ textOf rest

end

end HybridHeap.Derive
