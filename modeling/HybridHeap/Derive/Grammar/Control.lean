import HybridHeap.Derive.Grammar.Access
import HybridHeap.Derive.Grammar.Pattern

/-!
# Control structures

Conditionals, loops, matches and blocks, which need no semicolon after them, and jumps and
closures, which do.
-/

namespace HybridHeap.Derive

/-- The expression with attributes in front of it, unless it loses them. -/
def Expression.withAttributes (attributes : String) (e : Expression) : Expression :=
  if e.losesAttributes then e else { e with text := attributes ++ e.text }

namespace Reader

/-- The text of an expression before braces, which is no record. -/
def head (g : Grammar) : Reader String := return (← g.expression false).text

/-- Read a condition and the block that is run if it holds. -/
def branch (g : Grammar) : Reader String := do
  return (← keyword "if") ++ (← head g) ++ (← block g)

/-- Read a conditional. -/
def conditional (g : Grammar) : Reader String := do
  let first ← branch g
  let others ← manyTexts do
    if (← seesWord ["else"]) && (← seesWordAt 1 ["if"]) then
      return some ((← keyword "else") ++ (← branch g))
    else return none
  let last ← readIf (seesWord ["else"]) do return (← keyword "else") ++ (← block g)
  return first ++ others ++ last

/-- Read a loop. -/
def loop (g : Grammar) : Reader String := do
  if ← seesWord ["while"] then
    return (← keyword "while") ++ (← head g) ++ (← attributedBlock g)
  else if ← seesWord ["for"] then
    let start := (← keyword "for") ++ (← anyOf g) ++ (← keyword "in")
    return start ++ (← head g) ++ (← attributedBlock g)
  else return (← keyword "loop") ++ (← attributedBlock g)

/-- Whether the quantifier of a closure is ahead. -/
def seesQuantifier : Reader Bool := do
  let hasLifetimes := (← seesAt 2 Tree.isLifetime) || (← seesPunctAt 2 ">")
  return (← seesWord ["for"]) && (← seesPunctAt 1 "<") && hasLifetimes

/-- Whether a loop is ahead. -/
def seesLoop : Reader Bool := do
  return (← seesWord ["while", "loop", "for"]) && !(← seesQuantifier)

/-- Read an arm of a match. Its comma may be missing after a control structure and at the end. -/
def arm (g : Grammar) : Reader String := do
  let pattern := (← attributesText) ++ (← anyOf g)
  let guard ← readIf (seesWord ["if"]) do return (← keyword "if") ++ (← expressionText g)
  let arrow ← punct "=>"
  let body ← g.leading
  let comma ← if body.needsSemicolon && !(← atEnd) then punct "," else punctIf ","
  return pattern ++ guard ++ arrow ++ body.text ++ comma

/-- Read a match. -/
def matching (g : Grammar) : Reader String := do
  let start := (← keyword "match") ++ (← head g)
  return start ++ (← grouped .brace do
    let attributes ← innerAttributes
    return attributes ++ (← manyTexts do if ← atEnd then return none else some <$> arm g))

/-- Read a control structure, or a block of constants, if one is ahead. -/
def structure? (g : Grammar) : Reader (Option Expression) := do
  let free := fun text : String => some { text, needsSemicolon := false : Expression }
  if ← seesWord ["if"] then free <$> conditional g
  else if ← seesLoop then free <$> loop g
  else if ← seesWord ["match"] then free <$> matching g
  else if (← seesWord ["try"]) && (← seesAt 1 (·.isGroupOf .brace)) then
    return free ((← keyword "try") ++ (← block g))
  else if ← seesWord ["unsafe"] then return free ((← keyword "unsafe") ++ (← attributedBlock g))
  else if ← seesWord ["const"] then
    return some { text := ← constantBlock g, losesAttributes := true }
  else if ← seesGroup .brace then free <$> attributedBlock g
  else return none

/-- Read an expression that a control structure at its start ends, unless a field or a question mark
follows. -/
def leading (g : Grammar) : Reader Expression := do
  let attributes ← attributesText
  match ← structure? g with
  | some e =>
    if (← seesPoint) || (← sees "?") then
      g.continued true .any ((← accessed g e).withAttributes attributes)
    else return e.withAttributes attributes
  | none => g.continued true .any ((← g.operand true).withAttributes attributes)

/-- Read a control structure with a label in front of it. -/
def labelled (g : Grammar) : Reader Expression := do
  let label := (← lifetime) ++ (← punct ":")
  let text ← if ← seesGroup .brace then attributedBlock g else loop g
  return { text := label ++ text, needsSemicolon := false }

/-- Whether no value follows a jump. -/
def seesNoValue : Reader Bool := return (← atEnd) || (← sees ",") || (← sees ";")

/-- Read a jump with its label and its value. -/
def jump (g : Grammar) (allowsRecord : Bool) : Reader String := do
  if ← seesWord ["break"] then
    let start := (← keyword "break") ++ (← lifetimeIf)
    let isBare := (← seesNoValue) || (!allowsRecord && (← seesGroup .brace))
    return start ++ (← readIf (pure !isBare) do return (← g.expression allowsRecord).text)
  else if ← seesWord ["continue"] then return (← keyword "continue") ++ (← lifetimeIf)
  else
    let allowsRecord := allowsRecord || (← seesWord ["yield"])
    let start ← take (·.isOneOf ["return", "yield"])
    return start ++ (← readIf (not <$> seesNoValue) do return (← g.expression allowsRecord).text)

/-- Read an argument of a closure. -/
def closureArgument (g : Grammar) : Reader String := do
  let attributes ← attributesText
  let pattern ← g.pattern
  if ← sees ":" then
    return attributes ++ pattern.text ++ (← punct ":") ++ (← g.type true).text
  else return pattern.withAttributes attributes

/-- Read a closure. Its body is a block if it has a return type. -/
def closure (g : Grammar) (allowsRecord : Bool) : Reader String := do
  let modifiers := (← keywordIf "static") ++ (← keywordIf "async") ++ (← keywordIf "move")
  let opening := modifiers ++ (← punct "|")
  let arguments ← separatedText "," (sees "|") (closureArgument g)
  let start := opening ++ arguments ++ (← punct "|")
  if ← sees "->" then
    return start ++ (← punct "->") ++ (← g.type true).text ++ (← block g)
  else return start ++ (← g.expression allowsRecord).text

end Reader

end HybridHeap.Derive
