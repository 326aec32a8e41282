import HybridHeap.Derive.Grammar.Member
import HybridHeap.Derive.Grammar.Type

/-!
# Patterns

What a match, a binding or an argument takes apart. A range in three points is written again with
an equals sign.
-/

namespace HybridHeap.Derive.Reader

/-- Read a block of constants, as it is written. -/
def constantBlock (g : Grammar) : Reader String :=
  asWritten do
    discard <| keyword "const"
    attributedBlock g

/-- Read patterns with bars between them, one of which may stand before the first. -/
def alternatives (one : Reader String) : Reader String := do
  let bar ← punctIf "|"
  let first ← one
  let others ← manyTexts do
    if (← sees "|") && !(← sees "||") && !(← sees "|=") then
      return some ((← punct "|") ++ (← one))
    else return none
  return bar ++ first ++ others

/-- Whether no end of a range follows its operator. -/
def seesRangeEnd : Reader Bool := do
  if (← atEnd) || (← seesColon) || (← seesWord ["if"]) then return true
  return (← sees "|") || (← sees "=") || (← sees ",") || (← sees ";")

/-- Read one end of a range: a literal, a path or a block of constants, perhaps after a minus
sign. -/
def rangeEnd (g : Grammar) : Reader String := do
  let sign ← punctIf "-"
  let isPath := fun t : Tree => t.isIdentifier || t.isOneOf pathWords
  if ← seesLiteral then return sign ++ (← literal)
  else if (← seesA isPath) || (← sees "::") || (← sees "<") then
    return sign ++ (← qualifiedPath g true).2.text
  else return sign ++ (← constantBlock g)

/-- Read what follows the lower end of a range in a pattern, which is kept as it is written if it
has no upper end. -/
def patternRange (g : Grammar) (lower : String) : Reader Found := do
  let operator ← rangeOperator
  if ← seesRangeEnd then return { text := lower ++ operator, isKept := true }
  else return { text := lower ++ operator ++ (← rangeEnd g) }

/-- Read patterns with bars between them. -/
def anyOf (g : Grammar) : Reader String := alternatives (Found.text <$> g.pattern)

/-- Read the pattern for a field. -/
def fieldPattern (g : Grammar) : Reader String := do
  let modifiers := (← keywordIf "box") ++ (← keywordIf "ref") ++ (← keywordIf "mut")
  if modifiers.isEmpty then
    let (name, isNamed) ← member
    if !isNamed || (← sees ":") then
      return name ++ (← punct ":") ++ (← anyOf g)
    else return name
  else return modifiers ++ (← identifier)

/-- Read the patterns for fields between braces. Points for the rest come last and have a comma
before them; it is told whether they have attributes. -/
def fieldPatterns (g : Grammar) : Reader (String × Bool) := do
  let fields ← many do
    if ← atEnd then return none
    let attributes ← attributesText
    if ← sees ".." then
      let points ← punct ".."
      assert (← atEnd)
      return some (attributes ++ points, !attributes.isEmpty)
    else
      let field := attributes ++ (← fieldPattern g)
      return some (field ++ (← readIf (not <$> atEnd) (punct ",")), false)
  return (String.join (fields.map Prod.fst), fields.any Prod.snd)

/-- Read patterns between delimiters. -/
def patterns (g : Grammar) (d : Delimiter) : Reader String := grouped d (listText (anyOf g))

/-- Read a pattern that begins with a path. If it has parts and its path begins with a type, or if
the points for the rest have attributes, it is kept as it is written. -/
def pathPattern (g : Grammar) : Reader Found := do
  let (isQualified, p) ← qualifiedPath g true
  let body? ← if isQualified then pure none else macroBody? p
  if let some body := body? then return { text := p.text ++ body }
  else if ← seesGroup .brace then
    let (fields, hasMarkedRest) ← inside .brace (fieldPatterns g)
    return { text := p.text ++ Delimiter.brace.around fields
             isKept := isQualified || hasMarkedRest }
  else if ← seesGroup .paren then
    return { text := p.text ++ (← patterns g .paren), isKept := isQualified }
  else if ← sees ".." then patternRange g p.text
  else return { text := p.text }

/-- Read a pattern that begins with a literal, a minus sign or a block of constants. -/
def literalPattern (g : Grammar) : Reader Found := do
  let isBlock ← seesWord ["const"]
  let lower ← rangeEnd g
  if ← sees ".." then patternRange g lower else return { text := lower, isKept := isBlock }

/-- Read a pattern that binds a name. -/
def namePattern (g : Grammar) : Reader String := do
  let start := (← keywordIf "ref") ++ (← keywordIf "mut") ++ (← anyWord)
  return start ++ (← readIf (sees "@") do return (← punct "@") ++ (← g.pattern).text)

/-- Read a pattern that begins with a range operator. It is kept as it is written, unless it is just
two points. -/
def openPattern (g : Grammar) : Reader Found := do
  let operator ← rangeOperator
  if ← seesRangeEnd then
    assert (operator == "..")
    return { text := operator }
  else return { text := operator ++ (← rangeEnd g), isKept := true }

/-- Whether a pattern that begins with a path is ahead, rather than one that binds a name. -/
def seesPathPattern : Reader Bool := do
  let isBody := fun t : Tree => t.isGroupOf .brace || t.isGroupOf .paren
  let goesOn := (← seesPunctAt 1 "::") || (← seesPunctAt 1 "!") || (← seesPunctAt 1 "..") ||
    (← seesAt 1 isBody)
  return ((← seesA Tree.isIdentifier) && goesOn) ||
    ((← seesWord ["self"]) && (← seesPunctAt 1 "::")) || (← sees "::") || (← sees "<") ||
    (← seesWord ["Self", "super", "crate"])

/-- Read a pattern that begins with a word, a reference or a delimiter. -/
def plainPattern (g : Grammar) : Reader String := do
  if ← seesWord ["_"] then keyword "_"
  else if ← seesWord ["box"] then return (← keyword "box") ++ (← g.pattern).text
  else if (← seesA Tree.isIdentifier) || (← seesWord ["ref", "mut", "self"]) then namePattern g
  else if ← sees "&" then
    let start := (← punct "&") ++ (← keywordIf "mut")
    return start ++ (← g.pattern).text
  else if ← seesGroup .paren then patterns g .paren
  else patterns g .bracket

/-- Read a pattern. -/
def pattern (g : Grammar) : Reader Found :=
  settled do
    if ← seesPathPattern then pathPattern g
    else if (← sees "-") || (← seesLiteral) || (← seesWord ["const"]) then literalPattern g
    else if (← sees "..") && !(← sees "...") then openPattern g
    else return { text := ← plainPattern g }

end HybridHeap.Derive.Reader
