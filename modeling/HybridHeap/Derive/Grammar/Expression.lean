import HybridHeap.Derive.Grammar.Control

/-!
# Expressions

Operands, and the operators between them by how tightly they bind. An expression is written again as
it is, but for the paths in it, the numbers of its fields, and ranges in three points.
-/

namespace HybridHeap.Derive.Reader

/-- Read a field of a record with its value, which may be missing after a name. -/
def recordField (g : Grammar) : Reader String := do
  let attributes ← attributesText
  let (name, isNamed) ← member
  let value ← readIf (return !isNamed || (← sees ":")) do
    return (← punct ":") ++ (← expressionText g)
  return attributes ++ name ++ value

/-- Read the fields of a record. Points for the rest come last. -/
def recordFields (g : Grammar) : Reader String :=
  manyTexts do
    if ← atEnd then return none
    else if ← sees ".." then
      let rest := (← punct "..") ++ (← readIf (not <$> atEnd) (expressionText g))
      assert (← atEnd)
      return some rest
    else return some ((← recordField g) ++ (← readIf (not <$> atEnd) (punct ",")))

/-- Read an expression that begins with a path: a macro call, a record or the path alone. A record
whose path begins with a type is kept as it is written. -/
def pathExpression (g : Grammar) (allowsRecord : Bool) : Reader Expression := do
  let before ← get
  let (isQualified, p) ← qualifiedPath g true
  let body? ← if isQualified then pure none else macroBody? p
  if let some body := body? then return { text := p.text ++ body }
  else if allowsRecord && (← seesGroup .brace) then
    let fields ← grouped .brace (recordFields g)
    if isQualified then return { text := ← writtenSince before, losesAttributes := true }
    else return { text := p.text ++ fields }
  else return { text := p.text }

/-- Read an array by its items, or by one item and a length. -/
def array (g : Grammar) : Reader String :=
  grouped .bracket do
    if ← atEnd then return ""
    let first ← expressionText g
    if ← sees ";" then return first ++ (← punct ";") ++ (← expressionText g)
    else if ← sees "," then
      return first ++ (← punct ",") ++ (← listText (expressionText g))
    else return first

/-- Read a binding that is a condition. -/
def letCondition (g : Grammar) : Reader String := do
  let start := (← keyword "let") ++ (← anyOf g) ++ (← punct "=")
  let operand ← g.operand false
  return start ++ (← g.continued false .compare operand).text

/-- Whether a range has no upper end. -/
def seesNoEnd (allowsRecord : Bool) : Reader Bool := do
  return (← seesNoValue) || (← seesPoint) || (!allowsRecord && (← seesGroup .brace))

/-- Read a range without a lower end. -/
def openRange (g : Grammar) (allowsRecord : Bool) : Reader Expression := do
  let operator ← rangeOperator
  let upper ← readIf (not <$> seesNoEnd allowsRecord) do
    return (← g.expression allowsRecord).text
  return { text := operator ++ upper, isRange := true }

/-- Whether an asynchronous block is ahead. -/
def seesAsyncBlock : Reader Bool := do
  let isBlock := fun t : Tree => t.isGroupOf .brace
  let isMoved := (← seesWordAt 1 ["move"]) && (← seesAt 2 isBlock)
  return (← seesWord ["async"]) && ((← seesAt 1 isBlock) || isMoved)

/-- Whether a closure without a quantifier is ahead. -/
def seesClosure : Reader Bool := do
  let isAsync := (← seesWord ["async"]) && ((← seesPunctAt 1 "|") || (← seesWordAt 1 ["move"]))
  return isAsync || (← sees "|") || (← seesWord ["static", "move"])

/-- Read a closure with a quantifier, which is kept as it is written. -/
def quantifiedClosure (g : Grammar) (allowsRecord : Bool) : Reader Expression := do
  let text ← asWritten do
    discard <| quantifier
    closure g allowsRecord
  return { text, losesAttributes := true }

/-- Read an operand without operators in front of it and without anything at its end. -/
def atom (g : Grammar) (allowsRecord : Bool) : Reader Expression := do
  if let some e ← structure? g then return e
  else if ← seesLiteral then return { text := ← literal }
  else if ← seesAsyncBlock then
    let start := (← keyword "async") ++ (← keywordIf "move")
    return { text := start ++ (← block g), needsSemicolon := false }
  else if ← seesClosure then return { text := ← closure g allowsRecord }
  else if ← seesQuantifier then quantifiedClosure g allowsRecord
  else if (← seesA Tree.isIdentifier) || (← seesWord pathWords) || (← sees "::") ||
      (← sees "<") then
    pathExpression g allowsRecord
  else if ← seesGroup .paren then return { text := ← arguments g }
  else if ← seesGroup .bracket then return { text := ← array g }
  else if ← seesWord ["break", "continue", "return", "yield"] then
    return { text := ← jump g allowsRecord }
  else if ← seesWord ["let"] then return { text := ← letCondition g }
  else if ← sees ".." then openRange g allowsRecord
  else if ← seesWord ["_"] then return { text := ← keyword "_", losesAttributes := true }
  else labelled g

/-- Read a reference. One that is raw is kept as it is written since `before` was ahead. -/
def reference (g : Grammar) (allowsRecord : Bool) (before : List Tree) (attributes : String) :
    Reader Expression := do
  let mark ← punct "&"
  if (← seesWord ["raw"]) && (← seesWordAt 1 ["mut", "const"]) then
    discard <| keyword "raw"
    discard <| anyWord
    discard <| g.operand allowsRecord
    return { text := ← writtenSince before, losesAttributes := true }
  else
    let start := attributes ++ mark ++ (← keywordIf "mut")
    return { text := start ++ (← g.operand allowsRecord).text }

/-- The operators in front of an operand, the reference apart. -/
def seesUnary : Reader Bool := return (← sees "*") || (← sees "!") || (← sees "-")

/-- Read an operand with its attributes and the operators in front of it. -/
def operand (g : Grammar) (allowsRecord : Bool) : Reader Expression := do
  let before ← get
  let attributes ← attributesText
  if ← sees "&" then reference g allowsRecord before attributes
  else if ← seesWord ["box"] then
    let start := attributes ++ (← keyword "box")
    return { text := start ++ (← g.operand allowsRecord).text }
  else if ← seesUnary then
    let start := attributes ++ (← take fun _ => true)
    return { text := start ++ (← g.operand allowsRecord).text }
  else
    let e ← accessed g (← atom g allowsRecord)
    return { e with text := attributes ++ e.text }

/-- Read an operand and what binds to it by operators that are admitted. -/
def rightOperand (g : Grammar) (allowsRecord : Bool) (admits : Precedence → Bool) :
    Reader String := do
  let first ← g.operand allowsRecord
  let found ← iterate (fun e => do
    let next ← precedenceAhead
    if admits next then some <$> g.continued allowsRecord next e else return none) first
  return found.text

/-- Read a type after an operand, to which nothing but a further operator may be joined. -/
def cast (g : Grammar) : Reader String := do
  let type := (← g.type false).text
  let isJoined := (← seesPoint) || (← sees "?") || (← seesGroup .bracket) || (← seesGroup .paren)
  assert !isJoined
  return type

/-- Read one operator after an operand with what is to its right, if it binds at least so
tightly. -/
def operation? (g : Grammar) (allowsRecord : Bool) (base : Precedence) (e : Expression) :
    Reader (Option Expression) := do
  let next ← precedenceAhead
  if next = .any || !next.atLeast base then return none
  else if next = .range then
    let start := e.text ++ (← rangeOperator)
    let upper ← readIf (not <$> seesNoEnd allowsRecord) do
      rightOperand g allowsRecord (·.above .range)
    return some { text := start ++ upper }
  else if next = .cast then
    let mark ← if ← sees ":" then punct ":" else keyword "as"
    return some { text := e.text ++ mark ++ (← cast g) }
  else
    let operator ← match ← binaryAhead with
      | some (operator, _) => punct operator
      | none => punct "="
    let admits := fun following : Precedence =>
      following.above next || (following = next && next = .assign)
    let right ← rightOperand g allowsRecord admits
    return some { text := e.text ++ operator ++ right, losesAttributes := e.losesAttributes }

/-- Read what follows an operand by operators that bind at least so tightly. -/
def continued (g : Grammar) (allowsRecord : Bool) (base : Precedence) (e : Expression) :
    Reader Expression :=
  iterate (operation? g allowsRecord base) e

/-- Read an expression. -/
def expression (g : Grammar) (allowsRecord : Bool) : Reader Expression := do
  continued g allowsRecord .any (← operand g allowsRecord)

end HybridHeap.Derive.Reader
