import HybridHeap.Derive.Grammar.Member

/-!
# Calls, indexes and fields

What an operand can have at its end: arguments, an index, a field, a method call, or a question
mark.
-/

namespace HybridHeap.Derive.Reader

/-- Whether a single point is ahead, which is not the first of a range operator. -/
def seesPoint : Reader Bool := return (← sees ".") && !(← sees "..")

/-- The text of an expression, which may be a record. -/
def expressionText (g : Grammar) : Reader String := return (← g.expression true).text

/-- Read the arguments of a call. -/
def arguments (g : Grammar) : Reader String := grouped .paren (listText (expressionText g))

/-- Read the arguments in angle brackets after the name of a method. -/
def methodArguments (g : Grammar) : Reader String := do
  let opening := (← punct "::") ++ (← punct "<")
  let arguments ← separatedText "," (sees ">") do
    if ← seesLiteral then literal
    else if ← seesGroup .brace then attributedBlock g
    else return (← g.type true).text
  return opening ++ arguments ++ (← punct ">")

/-- Read a field or a method call, with the point before it. -/
def field (g : Grammar) : Reader String := do
  let point ← punct "."
  if ← seesWord ["await"] then return point ++ (← keyword "await")
  let (numbers, isOpen) ← fieldNumbers
  if !isOpen then return point ++ numbers
  let (name, isNamed) ← member
  let start := point ++ numbers ++ name
  if isNamed && (← sees "::") then return start ++ (← methodArguments g) ++ (← arguments g)
  else if isNamed && (← seesGroup .paren) then return start ++ (← arguments g)
  else return start

/-- Read one thing at the end of an operand, if there is one. -/
def access? (g : Grammar) (allowsField : Bool) : Reader (Option String) := do
  if ← seesGroup .paren then some <$> arguments g
  else if allowsField && (← seesPoint) then some <$> field g
  else if ← seesGroup .bracket then some <$> grouped .bracket (expressionText g)
  else if ← sees "?" then some <$> punct "?"
  else return none

/-- Read what an operand has at its end. A field cannot be one of a range. -/
def accessed (g : Grammar) (e : Expression) : Reader Expression := do
  match ← access? g (!e.isRange) with
  | none => return e
  | some first => return { text := e.text ++ first ++ (← manyTexts (access? g true)) }

end HybridHeap.Derive.Reader
