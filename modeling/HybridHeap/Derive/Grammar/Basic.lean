import HybridHeap.Derive.Grammar.Operator
import HybridHeap.Derive.Item
import HybridHeap.Derive.Literal

/-!
# The parts of a grammar

Types, patterns, expressions and declarations contain each other. Each of their readers is a plain
function of a `Grammar`, which has the readers for what is one level deeper; nothing here recurs but
along the tokens. Attributes, literals and blocks are read here, too.
-/

namespace HybridHeap.Derive

/-- A text that was read. -/
structure Found where
  text : String
  /-- Whether it is kept as it stands in the source. It then loses the attributes in front of it. -/
  isKept : Bool := false

/-- The text with attributes in front of it, unless it loses them. -/
def Found.withAttributes (attributes : String) (f : Found) : String :=
  if f.isKept then f.text else attributes ++ f.text

/-- What has to be known about a type besides its text. -/
inductive TypeForm where
  /-- A path that is not qualified, and whether it is one name with arguments in angle brackets. -/
  | path (isGenericName : Bool)
  /-- A single trait in the place of a type; its text without parentheses around it. -/
  | trait (bare : String)
  /-- A type in parentheses. -/
  | parens
  | other
  deriving DecidableEq

/-- A type that was read. -/
structure TypeText where
  text : String
  form : TypeForm := .other

/-- An expression that was read. -/
structure Expression where
  text : String
  /-- Whether more can follow it in a block only after a semicolon. -/
  needsSemicolon : Bool := true
  isRange : Bool := false
  /-- Whether it begins with an operand that cannot carry attributes, so that those in front of it
  are lost. -/
  losesAttributes : Bool := false

/-- The readers for what is one level deeper. -/
structure Grammar where
  /-- A type; plus signs belong to it if the flag is set. -/
  type : Bool → Reader TypeText
  /-- A bound: a lifetime or a trait. -/
  bound : Reader String
  /-- An expression; braces after a path are the fields of a record if the flag is set. -/
  expression : Bool → Reader Expression
  /-- An operand with its prefix operators and what is joined to its end; the flag is as above. -/
  operand : Bool → Reader Expression
  /-- What follows an operand by operators that bind at least so tightly; the flag is as above. -/
  continued : Bool → Precedence → Expression → Reader Expression
  /-- An expression that a control structure at its start may end. -/
  leading : Reader Expression
  pattern : Reader Found
  /-- The statements up to the end of a block. -/
  statements : Reader String
  /-- The declaration of an item, with its attributes. -/
  declaration : Reader Found
  /-- The names that an import takes from a path. -/
  imports : Reader String

namespace Reader

/-- Read something that may be kept as it stands in the source. -/
def settled (read : Reader Found) : Reader Found := do
  let before ← get
  let found ← read
  if found.isKept then return { found with text := ← writtenSince before } else return found

/-- The words besides identifiers that a path can have. -/
def pathWords : List String := ["super", "self", "Self", "crate"]

/-- Take a name of a path. -/
def pathName : Reader String := take fun t => t.isIdentifier || t.isOneOf pathWords

/-- Read a path without arguments: whether it begins at the root, and its names. -/
def plainPath : Reader (Bool × List String) := do
  let isAbsolute ← skips "::"
  let first ← pathName
  let others ← many do
    if ← skips "::" then some <$> pathName else return none
  return (isAbsolute, first :: others)

/-- Read an attribute in front of something. -/
def outerAttribute : Reader Attribute := do
  let before ← get
  discard <| punct "#"
  let (isAbsolute, path) ← inside .bracket do
    let named ← plainPath
    discard <| everything
    return named
  let text := textOf (before.take 2)
  return { isAbsolute, path, text }

/-- Read the attributes in front of something. -/
def attributes : Reader (List Attribute) :=
  many do if ← sees "#" then some <$> outerAttribute else return none

/-- The text of the attributes in front of something. -/
def attributesText : Reader String := Derive.attributesText <$> attributes

/-- The text of the attributes at the start of what they belong to. -/
def innerAttributes : Reader String :=
  manyTexts do
    if (← sees "#") && (← seesPunctAt 1 "!") then
      let text ← asWritten do
        discard <| punct "#"
        discard <| punct "!"
        inside .bracket do
          discard <| plainPath
          everything
      return some text
    else return none

/-- Take a literal that an expression can hold, a number perhaps with a minus sign. -/
def literal : Reader String := do
  match ← get with
  | .literal text :: _ =>
    assert (Literal.form? text).isSome
    take fun _ => true
  | .punct '-' _ :: .literal text :: _ =>
    assert (match Literal.form? text with
      | some (.integer _ _) => true
      | some .fraction => true
      | _ => false)
    return (← punct "-") ++ (← take fun _ => true)
  | _ => take (·.isOneOf ["true", "false"])

/-- Whether a literal is ahead. -/
def seesLiteral : Reader Bool := succeeds literal

/-- Take a literal that is a quoted text. -/
def textLiteral : Reader String := do
  match ← get with
  | .literal text :: _ =>
    assert (Literal.form? text == some .text)
    take fun _ => true
  | _ => failure

/-- Read a block whose attributes stand in front of it. -/
def block (g : Grammar) : Reader String := grouped .brace g.statements

/-- Read a block that may begin with attributes. -/
def attributedBlock (g : Grammar) : Reader String :=
  grouped .brace do return (← innerAttributes) ++ (← g.statements)

end Reader

end HybridHeap.Derive
