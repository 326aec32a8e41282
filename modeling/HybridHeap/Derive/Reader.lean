import HybridHeap.Derive.Separated
import HybridHeap.Derive.Token

/-!
# Readers of tokens

A reader takes tokens off the front and fails if they are not what it wants. What most readers give
back is text: the text of what they took, in the form in which it is written again. That form may
differ from the source, as when the arguments of a path are put into order.
-/

namespace HybridHeap.Derive

/-- A reader of tokens, which may fail. -/
abbrev Reader := StateT (List Tree) Option

/-- Whether the tokens begin with the given punctuation, whose characters are joined. -/
def beginsPunct : List Char → List Tree → Bool
  | [c], .punct d _ :: _ => c == d
  | c :: cs, .punct d true :: rest => c == d && beginsPunct cs rest
  | _, _ => false

namespace Tree

/-- The words that are no identifiers. -/
def keywords : List String :=
  ["_", "abstract", "as", "become", "box", "break", "const", "continue", "crate", "do", "else",
   "enum", "extern", "false", "final", "fn", "for", "if", "impl", "in", "let", "loop", "macro",
   "match", "mod", "move", "mut", "override", "priv", "pub", "ref", "return", "Self", "self",
   "static", "struct", "super", "trait", "true", "type", "typeof", "unsafe", "unsized", "use",
   "virtual", "where", "while", "yield"]

/-- Whether a token is a word. -/
def isWord : Tree → Bool
  | word _ => true
  | _ => false

/-- Whether a token is an identifier. -/
def isIdentifier : Tree → Bool
  | word name => !keywords.contains name
  | _ => false

/-- Whether a token is one of some words. -/
def isOneOf (names : List String) : Tree → Bool
  | word name => names.contains name
  | _ => false

/-- Whether a token is a lifetime. -/
def isLifetime : Tree → Bool
  | lifetime _ => true
  | _ => false

/-- Whether a token is a group with the delimiter. -/
def isGroupOf (d : Delimiter) : Tree → Bool
  | group other _ => other = d
  | _ => false

/-- Whether a token is a group. -/
def isGroup : Tree → Bool
  | group _ _ => true
  | _ => false

end Tree

namespace Reader

/-- Fail unless a condition holds. -/
def assert (b : Bool) : Reader Unit := if b then pure () else failure

/-- Whether a condition holds of the tokens ahead. -/
def ahead (p : List Tree → Bool) : Reader Bool := return p (← get)

/-- Whether all tokens have been taken. -/
def atEnd : Reader Bool := ahead List.isEmpty

/-- Whether the token at a place, counted from zero, is of some sort. -/
def seesAt (place : Nat) (p : Tree → Bool) : Reader Bool := ahead fun ts => ts[place]?.any p

/-- Whether the first token is of some sort. -/
def seesA (p : Tree → Bool) : Reader Bool := seesAt 0 p

/-- Whether punctuation is found at a place, counted from zero. -/
def seesPunctAt (place : Nat) (p : String) : Reader Bool :=
  ahead fun ts => beginsPunct p.toList (ts.drop place)

/-- Whether punctuation is ahead. -/
def sees (p : String) : Reader Bool := seesPunctAt 0 p

/-- Whether one of some words is found at a place, counted from zero. -/
def seesWordAt (place : Nat) (names : List String) : Reader Bool := seesAt place (·.isOneOf names)

/-- Whether one of some words is ahead. -/
def seesWord (names : List String) : Reader Bool := seesWordAt 0 names

/-- Whether a group with the delimiter is ahead. -/
def seesGroup (d : Delimiter) : Reader Bool := seesA (·.isGroupOf d)

/-- Whether a single colon is ahead, which is not the first of two. -/
def seesColon : Reader Bool := return (← sees ":") && !(← sees "::")

/-- Whether a reader would succeed here. -/
def succeeds {α : Type} (read : Reader α) : Reader Bool := ahead fun ts => (read ts).isSome

/-- Take the first token, which is of some sort. -/
def take (p : Tree → Bool) : Reader String := do
  match ← get with
  | t :: rest =>
    assert (p t)
    set rest
    return t.text
  | [] => failure

/-- Take punctuation. -/
def punct (p : String) : Reader String := do
  assert (← sees p)
  modify (·.drop p.length)
  return p

/-- Take punctuation if it is ahead, and tell whether it was. -/
def skips (p : String) : Reader Bool := do
  if ← sees p then
    discard <| punct p
    return true
  else return false

/-- Take a keyword. -/
def keyword (name : String) : Reader String := take (·.isOneOf [name])

/-- Take a keyword if it is ahead, and tell whether it was. -/
def skipsWord (name : String) : Reader Bool := do
  if ← seesWord [name] then
    discard <| keyword name
    return true
  else return false

/-- The text of a reader that is tried only if a condition holds. -/
def readIf (condition : Reader Bool) (read : Reader String) : Reader String := do
  if ← condition then read else return ""

/-- Take punctuation if it is ahead. -/
def punctIf (p : String) : Reader String := readIf (sees p) (punct p)

/-- Take a keyword if it is ahead. -/
def keywordIf (name : String) : Reader String := readIf (seesWord [name]) (keyword name)

/-- Take an identifier. -/
def identifier : Reader String := take Tree.isIdentifier

/-- Take any word. -/
def anyWord : Reader String := take Tree.isWord

/-- Take a lifetime. -/
def lifetime : Reader String := take Tree.isLifetime

/-- Take a lifetime if one is ahead. -/
def lifetimeIf : Reader String := readIf (seesA Tree.isLifetime) lifetime

/-- Take a group as it is written, whatever its delimiter. -/
def anyGroup : Reader String := take Tree.isGroup

/-- Read all of a group. -/
def inside {α : Type} (d : Delimiter) (content : Reader α) : Reader α := do
  match ← get with
  | .group found inner :: rest =>
    assert (found = d)
    match content inner with
    | some (a, []) =>
      set rest
      return a
    | _ => failure
  | _ => failure

/-- Read all of a group; the text has the delimiters. -/
def grouped (d : Delimiter) (content : Reader String) : Reader String :=
  d.around <$> inside d content

/-- Take everything that is left, as it is written. -/
def everything : Reader String := do
  let ts ← get
  set ([] : List Tree)
  return textOf ts

/-- What has been taken since some tokens were ahead, as it is written. -/
def writtenSince (before : List Tree) : Reader String := do
  let after ← get
  return textOf (before.take (before.length - after.length))

/-- What a reader takes, as it is written. -/
def asWritten {α : Type} (read : Reader α) : Reader String := do
  let before ← get
  discard <| read
  writtenSince before

/-- Go on with a step until it gives nothing, at most so often. -/
def upTo {α : Type} (step : Reader (Option α)) : Nat → Reader (List α)
  | 0 => failure
  | count + 1 => do
    match ← step with
    | none => return []
    | some a => return a :: (← upTo step count)

/-- Go on with a step until it gives nothing. A step that gives something has to take a token. -/
def many {α : Type} (step : Reader (Option α)) : Reader (List α) := do
  upTo step ((← get).length + 1)

/-- Go on from a value with a step until it gives nothing, at most so often. -/
def iterateUpTo {α : Type} (step : α → Reader (Option α)) : Nat → α → Reader α
  | 0, _ => failure
  | count + 1, a => do
    match ← step a with
    | none => return a
    | some b => iterateUpTo step count b

/-- Go on from a value with a step until it gives nothing. A step that gives something has to take a
token. -/
def iterate {α : Type} (step : α → Reader (Option α)) (a : α) : Reader α := do
  iterateUpTo step ((← get).length + 1) a

/-- The texts of the steps, in a row. -/
def manyTexts (step : Reader (Option String)) : Reader String := String.join <$> many step

/-- Read things with a separator between them, at most so many. -/
def separatedUpTo {α : Type} (separator : String) (stop : Reader Bool) (read : Reader α) :
    Nat → Reader (Separated α)
  | 0 => failure
  | count + 1 => do
    if ← stop then return { items := [], endsInSeparator := false }
    let a ← read
    if ← skips separator then
      let rest ← separatedUpTo separator stop read count
      return { items := a :: rest.items
               endsInSeparator := rest.items.isEmpty || rest.endsInSeparator }
    else return { items := [a], endsInSeparator := false }

/-- Read things with a separator between them until `stop` holds or no separator follows; one may
follow the last. Each of them has to take a token. -/
def separated {α : Type} (separator : String) (stop : Reader Bool) (read : Reader α) :
    Reader (Separated α) := do
  separatedUpTo separator stop read ((← get).length + 1)

/-- The text of things with a separator between them. -/
def separatedText (separator : String) (stop : Reader Bool) (read : Reader String) :
    Reader String :=
  (·.text separator) <$> separated separator stop read

/-- Read things with commas between them, up to the end of the tokens. -/
def list {α : Type} (read : Reader α) : Reader (Separated α) := separated "," atEnd read

/-- The text of things with commas between them, up to the end of the tokens. -/
def listText (read : Reader String) : Reader String := (·.text ",") <$> list read

end Reader

end HybridHeap.Derive
