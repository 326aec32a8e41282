import HybridHeap.Derive.Literal
import HybridHeap.Derive.Token
import HybridHeap.Text.Blank
import HybridHeap.Text.Quoted

/-!
# Cutting source into tokens

The lexemes of a source text, and their grouping by delimiters. Blanks and comments between lexemes
are skipped, but a comment that documents something stands for an attribute that holds its text.
-/

namespace HybridHeap.Derive

/-- A token, or one half of a pair of delimiters. -/
inductive Lexeme where
  | leaf (t : Tree)
  | opens (d : Delimiter)
  | closes (d : Delimiter)

/-- The characters that are punctuation, the quote of a lifetime apart. -/
def isPunct (c : Char) : Bool := "~!@#$%^&*-=+|;:,<.>/?".toList.contains c

/-- Whether the text begins a comment. -/
def startsComment : List Char → Bool
  | '/' :: '/' :: _ => true
  | '/' :: '*' :: _ => true
  | _ => false

/-- A literal at the start of the text. -/
def literal? (cs : List Char) : Option (Tree × List Char) :=
  (Literal.after? cs).map fun rest =>
    (.literal (String.ofList (cs.take (cs.length - rest.length))), rest)

/-- The names that cannot be written as raw identifiers. -/
def neverRaw : List String := ["_", "super", "self", "Self", "crate"]

/-- An identifier or keyword at the start of the text, perhaps a raw one. -/
def name? : List Char → Option (String × List Char)
  | 'r' :: '#' :: rest => do
    let (name, rest) ← identifier? rest
    let name := String.ofList name
    if neverRaw.contains name then none else some ("r#" ++ name, rest)
  | cs => do
    let (name, rest) ← identifier? cs
    some (String.ofList name, rest)

/-- Whether a name stops at a hash although it is not raw. -/
def stopsAtHash (name : String) (rest : List Char) : Bool :=
  rest.head? == some '#' && !"r#".toList.isPrefixOf name.toList

/-- A lifetime at the start of the text. -/
def lifetime? : List Char → Option (Tree × List Char)
  | '\'' :: rest => do
    let (name, rest) ← name? rest
    if rest.head? == some '\'' || stopsAtHash name rest then none
    else some (.lifetime ("'" ++ name), rest)
  | _ => none

/-- A punctuation character at the start of the text. -/
def punct? : List Char → Option (Tree × List Char)
  | c :: rest =>
    if isPunct c && !startsComment (c :: rest) then
      let isJoined := (rest.head?.any fun d => isPunct d || d == '\'') && !startsComment rest
      some (.punct c isJoined, rest)
    else none
  | [] => none

/-- The starts of quoted literals, which no word has. -/
def literalStarts : List String :=
  ["r\"", "r#\"", "r##", "b\"", "b'", "br\"", "br#", "c\"", "cr\"", "cr#"]

/-- An identifier or keyword at the start of the text. -/
def word? (cs : List Char) : Option (Tree × List Char) :=
  if literalStarts.any fun start => start.toList.isPrefixOf cs then none
  else (name? cs).map fun (name, rest) => (.word name, rest)

/-- The first lexeme of the text. -/
def lexeme? (cs : List Char) : Option (Lexeme × List Char) :=
  match cs with
  | [] => none
  | c :: rest =>
    match Delimiter.ofOpening? c, Delimiter.ofClosing? c with
    | some d, _ => some (.opens d, rest)
    | _, some d => some (.closes d, rest)
    | none, none =>
      (literal? cs <|> lifetime? cs <|> punct? cs <|> word? cs).map fun (t, rest) => (.leaf t, rest)

/-- The text inside a comment and the text after it, given what follows the start of the comment.
Comments nest; `inside` is what has been read of it, backwards. -/
def blockComment? (inside : List Char) : Nat → List Char → Option (List Char × List Char)
  | depth, '/' :: '*' :: rest => blockComment? ('*' :: '/' :: inside) (depth + 1) rest
  | 0, '*' :: '/' :: rest => some (inside.reverse, rest)
  | depth + 1, '*' :: '/' :: rest => blockComment? ('/' :: '*' :: inside) depth rest
  | depth, c :: rest => blockComment? (c :: inside) depth rest
  | _, [] => none

/-- The text of a comment up to the end of the line, and the text after it. -/
def lineComment : List Char → List Char × List Char
  | [] => ([], [])
  | '\r' :: '\n' :: rest => ([], '\n' :: rest)
  | c :: rest =>
    if c == '\n' then ([], c :: rest)
    else
      let (inside, after) := lineComment rest
      (c :: inside, after)

/-- A comment: whether it documents something, and then whether the thing around it, its text, and
the text after it. -/
structure Comment where
  documents : Bool
  isInner : Bool
  inside : List Char
  after : List Char

/-- The comment that the text begins with, if it is closed. A third slash or star, or an exclamation
mark, makes a comment documentation, unless a further slash or star follows it, be it the one that
ends the comment. -/
def comment? : List Char → Option Comment
  | '/' :: '/' :: '!' :: rest =>
    let (inside, after) := lineComment rest
    some ⟨true, true, inside, after⟩
  | '/' :: '/' :: rest =>
    let (inside, after) := lineComment rest
    match inside with
    | '/' :: '/' :: _ => some ⟨false, false, inside, after⟩
    | '/' :: inside => some ⟨true, false, inside, after⟩
    | _ => some ⟨false, false, inside, after⟩
  | '/' :: '*' :: rest => do
    let (inside, after) ← blockComment? [] 0 rest
    match inside with
    | '!' :: inside => some ⟨true, true, inside, after⟩
    | ['*'] => some ⟨false, false, inside, after⟩
    | '*' :: '*' :: _ => some ⟨false, false, inside, after⟩
    | '*' :: inside => some ⟨true, false, inside, after⟩
    | _ => some ⟨false, false, inside, after⟩
  | _ => none

/-- Whether every carriage return has a line feed after it. -/
def endsLinesInFull : List Char → Bool
  | '\r' :: '\n' :: rest => endsLinesInFull rest
  | '\r' :: _ => false
  | _ :: rest => endsLinesInFull rest
  | [] => true

/-- The text inside a literal that stands for the given characters. -/
def literalText : List Char → String
  | [] => ""
  | '\'' :: rest => "'" ++ literalText rest
  | '\x00' :: rest =>
    let isDigitNext := rest.head?.any fun c => '0' ≤ c && c ≤ '7'
    (if isDigitNext then "\\x00" else "\\0") ++ literalText rest
  | c :: rest => Text.escape c ++ literalText rest

/-- The attribute that a documenting comment stands for. -/
def documentation (isInner : Bool) (inside : List Char) : List Tree :=
  let content := [Tree.word "doc", .punct '=' false, .literal ("\"" ++ literalText inside ++ "\"")]
  let mark := if isInner then [Tree.punct '!' false] else []
  [Tree.punct '#' false] ++ mark ++ [.group .bracket content]

/-- The lexemes that a comment stands for. -/
def Comment.lexemes? (c : Comment) : Option (List Lexeme) :=
  if !c.documents then some []
  else if endsLinesInFull c.inside then some ((documentation c.isInner c.inside).map .leaf)
  else none

/-- Whether the character separates tokens. -/
def isSeparator (c : Char) : Bool := Text.isBlank c || c == '\u200e' || c == '\u200f'

/-- The lexemes of a text; `none` if it cannot be cut into lexemes. -/
def lexemes (cs : List Char) : Option (List Lexeme) :=
  match cs with
  | [] => some []
  | c :: rest =>
    if isSeparator c then lexemes rest
    else
      let next : Option (List Lexeme × List Char) :=
        if startsComment cs then do
          let comment ← comment? cs
          return (← comment.lexemes?, comment.after)
        else (lexeme? cs).map fun (lexeme, rest) => ([lexeme], rest)
      match next with
      | none => none
      | some (found, more) =>
        if _h : more.length < (c :: rest).length then (lexemes more).map (found ++ ·) else none
termination_by cs.length
decreasing_by
  · simp
  · assumption

/-- Group tokens by their delimiters. `outer` has the groups that are still open with what stood
before each of them, innermost first, and `found` the tokens of the innermost one; both run
backwards. -/
def groups (outer : List (Delimiter × List Tree)) (found : List Tree) :
    List Lexeme → Option (List Tree)
  | [] => match outer with
    | [] => some found.reverse
    | _ => none
  | .leaf t :: rest => groups outer (t :: found) rest
  | .opens d :: rest => groups ((d, found) :: outer) [] rest
  | .closes d :: rest => match outer with
    | [] => none
    | (opened, before) :: outer =>
      if opened = d then groups outer (.group d found.reverse :: before) rest else none

/-- The token trees of a text; `none` if it is not made of tokens with balanced delimiters. -/
def trees? (text : String) : Option (List Tree) := (lexemes text.toList).bind (groups [] [])

end HybridHeap.Derive
