import HybridHeap.Text.Identifier

/-!
# Literals

Literals at the start of a text. A reader of characters gives back the text after what it takes, or
`none` if the text does not begin with that. Quoted literals come in three kinds: text; bytes, which
are ASCII; and text that ends at the first null character and so may not hold one. A number is an
integer in base two, eight, ten or sixteen or a decimal fraction; an identifier that follows a
literal at once is its suffix.
-/

namespace HybridHeap.Derive

/-- The longest identifier that the text begins with, if it begins with one. -/
def identifier? : List Char → Option (List Char × List Char)
  | [] => none
  | c :: rest =>
    if Text.startsIdentifier c then
      some (c :: rest.takeWhile Text.continuesIdentifier, rest.dropWhile Text.continuesIdentifier)
    else none

namespace Literal

/-- The text after a suffix, if there is one. -/
def afterSuffix (cs : List Char) : List Char := ((identifier? cs).map Prod.snd).getD cs

/-- Whether the character is a digit in base sixteen. -/
def isHexDigit (c : Char) : Bool :=
  c.isDigit || ('a' ≤ c && c ≤ 'f') || ('A' ≤ c && c ≤ 'F')

/-- The value of digits in a base, underscores left out. -/
def valueIn (base : Nat) (digits : List Char) : Nat :=
  (digits.filter (· != '_')).foldl (fun n c =>
    let digit := if c.isDigit then c.toNat - '0'.toNat else c.toLower.toNat - 'a'.toNat + 10
    n * base + digit) 0

/-- The kinds of quoted literals. -/
inductive Quoting where
  | text
  | bytes
  /-- Text that ends with a null character which is not written. -/
  | terminated
  deriving DecidableEq

/-- Whether a character may stand for itself. -/
def Quoting.admits : Quoting → Char → Bool
  | text, _ => true
  | bytes, c => c.toNat < 0x80
  | terminated, c => c != '\x00'

/-- The text after the code of a character in braces, given what follows the opening brace. -/
def afterCode? (q : Quoting) (cs : List Char) : Option (List Char) :=
  let isPart := fun c => isHexDigit c || c == '_'
  let code := cs.takeWhile isPart
  let count := code.countP isHexDigit
  let value := valueIn 16 code
  match cs.dropWhile isPart with
  | '\x7d' :: rest =>
    if code.head?.any isHexDigit && count ≤ 6 && value.isValidChar &&
        (q == .text || value != 0) then some rest
    else none
  | _ => none

/-- The text after an escape, given what follows its backslash. -/
def afterEscape? (q : Quoting) : List Char → Option (List Char)
  | 'x' :: a :: b :: rest =>
    let isAdmitted := match q with
      | .text => '0' ≤ a && a ≤ '7'
      | .bytes => true
      | .terminated => a != '0' || b != '0'
    if isHexDigit a && isHexDigit b && isAdmitted then some rest else none
  | 'u' :: '\x7b' :: rest => if q == .bytes then none else afterCode? q rest
  | '0' :: rest => if q == .terminated then none else some rest
  | c :: rest => if ['n', 'r', 't', '\\', '\'', '"'].contains c then some rest else none
  | [] => none

/-- The text after the blanks that a backslash at the end of a line leaves out. -/
def afterBlanks? : List Char → Option (List Char)
  | '\r' :: '\n' :: rest => afterBlanks? rest
  | '\r' :: _ => none
  | '\n' :: rest => afterBlanks? rest
  | '\t' :: rest => afterBlanks? rest
  | ' ' :: rest => afterBlanks? rest
  | [] => none
  | cs => some cs

/-- The text after a string whose opening quote has been read, with at most so many characters and
escapes to look at. -/
def afterString? (q : Quoting) : Nat → List Char → Option (List Char)
  | 0, _ => none
  | _ + 1, [] => none
  | _ + 1, '"' :: rest => some (afterSuffix rest)
  | fuel + 1, '\r' :: '\n' :: rest => afterString? q fuel rest
  | _ + 1, '\r' :: _ => none
  | fuel + 1, '\\' :: '\n' :: rest => (afterBlanks? rest).bind (afterString? q fuel)
  | fuel + 1, '\\' :: '\r' :: rest => (afterBlanks? ('\r' :: rest)).bind (afterString? q fuel)
  | fuel + 1, '\\' :: rest => (afterEscape? q rest).bind (afterString? q fuel)
  | fuel + 1, c :: rest => if q.admits c then afterString? q fuel rest else none

/-- The text after a raw string that ends with a quote and so many hashes. -/
def afterRawString? (q : Quoting) (hashes : Nat) : List Char → Option (List Char)
  | [] => none
  | '\r' :: '\n' :: rest => afterRawString? q hashes rest
  | '\r' :: _ => none
  | c :: rest =>
    if c == '"' && rest.take hashes == List.replicate hashes '#' then
      some (afterSuffix (rest.drop hashes))
    else if q.admits c then afterRawString? q hashes rest
    else none

/-- The most hashes around a raw string. -/
def mostHashes : Nat := 255

/-- The text after a raw string, given what follows its `r`. -/
def afterRaw? (q : Quoting) (cs : List Char) : Option (List Char) :=
  let hashes := (cs.takeWhile (· == '#')).length
  match cs.drop hashes with
  | '"' :: rest => if hashes ≤ mostHashes then afterRawString? q hashes rest else none
  | _ => none

/-- The text after a character whose opening quote has been read. -/
def afterCharacter? (q : Quoting) (cs : List Char) : Option (List Char) :=
  let afterOne := match cs with
    | '\\' :: rest => afterEscape? q rest
    | c :: rest => if q.admits c then some rest else none
    | [] => none
  match afterOne with
  | some ('\'' :: rest) => some (afterSuffix rest)
  | _ => none

/-- The text after a literal in quotes. -/
def afterQuoted? : List Char → Option (List Char)
  | '"' :: rest => afterString? .text (rest.length + 1) rest
  | 'r' :: rest => afterRaw? .text rest
  | 'b' :: '"' :: rest => afterString? .bytes (rest.length + 1) rest
  | 'b' :: 'r' :: rest => afterRaw? .bytes rest
  | 'c' :: '"' :: rest => afterString? .terminated (rest.length + 1) rest
  | 'c' :: 'r' :: rest => afterRaw? .terminated rest
  | 'b' :: '\'' :: rest => afterCharacter? .bytes rest
  | '\'' :: rest => afterCharacter? .text rest
  | _ => none

/-- Whether the character is a decimal digit or an underscore. -/
def isDecimalPart (c : Char) : Bool := c.isDigit || c == '_'

/-- The text after an exponent, given what follows its letter. -/
def afterExponent? (cs : List Char) : Option (List Char) :=
  let cs := cs.dropWhile (· == '_')
  let cs := match cs with
    | '+' :: rest => rest
    | '-' :: rest => rest
    | cs => cs
  if (cs.takeWhile isDecimalPart).any Char.isDigit then some (cs.dropWhile isDecimalPart)
  else none

/-- Whether the character begins an exponent. -/
def isExponent (c : Char) : Bool := c == 'e' || c == 'E'

/-- The text after a decimal fraction without its suffix, given that a digit is first. A point
belongs to it unless a further point or an identifier follows. -/
def afterFraction? (cs : List Char) : Option (List Char) :=
  match cs.dropWhile isDecimalPart with
  | '.' :: rest =>
    if rest.head?.any fun c => c == '.' || Text.startsIdentifier c then none
    else
      let rest := rest.dropWhile isDecimalPart
      match rest with
      | c :: more => if isExponent c then some ((afterExponent? more).getD rest) else some rest
      | [] => some []
  | c :: rest => if isExponent c then afterExponent? rest else none
  | [] => none

/-- The base of an integer, and its text after what shows the base. -/
def baseOf : List Char → Nat × List Char
  | '0' :: 'x' :: rest => (16, rest)
  | '0' :: 'o' :: rest => (8, rest)
  | '0' :: 'b' :: rest => (2, rest)
  | cs => (10, cs)

/-- The digits that an integer begins with, underscores among them, and the text after them. -/
def digits (base : Nat) (cs : List Char) : List Char × List Char :=
  let isPart := fun c => isDecimalPart c || (base == 16 && isHexDigit c)
  (cs.takeWhile isPart, cs.dropWhile isPart)

/-- The text after an integer without its suffix, given that a digit is first. -/
def afterInteger? (cs : List Char) : Option (List Char) :=
  let (base, cs) := baseOf cs
  let (found, rest) := digits base cs
  let isDigit := fun c => isHexDigit c && valueIn base [c] < base
  if found.any isHexDigit && found.all (fun c => c == '_' || isDigit c) then some rest else none

/-- The text after a number with its suffix, given the text after its digits. A character that can
continue an identifier may not follow. -/
def afterNumberSuffix? (cs : List Char) : Option (List Char) :=
  let rest := afterSuffix cs
  if rest.head?.any Text.continuesIdentifier then none else some rest

/-- The text after a number. -/
def afterNumber? (cs : List Char) : Option (List Char) :=
  if cs.head?.any Char.isDigit then
    (afterFraction? cs).bind afterNumberSuffix? <|> (afterInteger? cs).bind afterNumberSuffix?
  else none

/-- The text after a literal. -/
def after? (cs : List Char) : Option (List Char) := afterQuoted? cs <|> afterNumber? cs

/-- What a literal is. -/
inductive Form where
  /-- A quoted text. -/
  | text
  | integer (value : Nat) (suffix : String)
  | fraction
  /-- A quoted character or quoted bytes. -/
  | other
  deriving DecidableEq

/-- What a number is. Of an integer in base ten, a letter that could begin an exponent begins the
suffix instead if no digits follow it. -/
def formOfNumber (cs : List Char) : Form :=
  let (base, cs) := baseOf cs
  let (found, rest) := digits base cs
  let integer := Form.integer (valueIn base found) (String.ofList rest)
  if base != 10 then integer
  else match rest with
    | '.' :: _ => .fraction
    | c :: more => if isExponent c && (afterExponent? more).isSome then .fraction else integer
    | [] => integer

/-- What a literal is; `none` for the kinds that no type or expression can hold. -/
def form? (text : String) : Option Form :=
  match text.toList with
  | '"' :: _ => some .text
  | 'r' :: _ => some .text
  | 'b' :: _ => some .other
  | '\'' :: _ => some .other
  | c :: rest => if c.isDigit then some (formOfNumber (c :: rest)) else none
  | [] => none

end Literal

end HybridHeap.Derive
