import HybridHeap.Derive.Grammar.Basic

/-!
# Paths

Names with `::` between them and arguments after them. Arguments in angle brackets are written
again with the lifetimes first; arguments in parentheses lose a `::` before them.
-/

namespace HybridHeap.Derive

/-- A name of a path with its arguments in angle brackets, if it has any. -/
structure Segment where
  name : String
  arguments : String := ""
  hasArguments : Bool := false
  /-- Whether arguments in parentheses can follow, which is so unless there are arguments. -/
  isOpen : Bool := true

/-- A path that was read. -/
structure PathText where
  /-- The text up to the last name. -/
  stem : String
  /-- The text of the arguments of the last name. -/
  arguments : String
  /-- Whether the last name can be followed by arguments in parentheses. -/
  isOpen : Bool
  /-- Whether some name has arguments. -/
  hasArguments : Bool
  /-- Whether it is one name with arguments in angle brackets. -/
  isGenericName : Bool

namespace PathText

/-- The whole text. -/
def text (p : PathText) : String := p.stem ++ p.arguments

/-- The path of one name after some text. -/
def ofSegment (start : String) (s : Segment) : PathText :=
  { stem := start ++ s.name, arguments := s.arguments, isOpen := s.isOpen
    hasArguments := s.hasArguments, isGenericName := start.isEmpty && s.hasArguments }

/-- The path with a further name. -/
def push (p : PathText) (s : Segment) : PathText :=
  { ofSegment (p.text ++ "::") s with hasArguments := p.hasArguments || s.hasArguments }

/-- The path with arguments in parentheses after its last name. -/
def applied (p : PathText) (arguments : String) : PathText :=
  { p with arguments, isOpen := false, hasArguments := true, isGenericName := false }

end PathText

/-- An argument in angle brackets. -/
structure Argument where
  text : String
  isLifetime : Bool := false

namespace Reader

/-- Take a literal, an identifier or a block as a constant. -/
def constant (g : Grammar) : Reader String := do
  if ← seesLiteral then literal
  else if ← seesA Tree.isIdentifier then identifier
  else attributedBlock g

/-- Read the bounds of a constraint, which may be missing. -/
def constraintBounds (g : Grammar) : Reader String :=
  separatedText "+" (return (← sees ",") || (← sees ">")) g.bound

/-- Read a type in angle brackets. After a single name with arguments of its own, a binding or a
constraint may follow; the whole is then kept as it is written. -/
def typeArgument (g : Grammar) : Reader String := do
  let before ← get
  let found ← g.type true
  let isBound ← if found.form = .path true then
      if ← skips "=" then
        discard <| g.type true
        pure true
      else if ← skips ":" then
        discard <| constraintBounds g
        pure true
      else pure false
    else pure false
  if isBound then writtenSince before else return found.text

/-- Read what an associated type is bound to. -/
def boundTo (g : Grammar) : Reader String := do
  if ← seesLiteral then literal
  else if ← seesGroup .brace then asWritten (attributedBlock g)
  else return (← g.type true).text

/-- Read an argument in angle brackets: a lifetime, binding, constraint, constant or type. -/
def argument (g : Grammar) : Reader Argument := do
  if (← seesA Tree.isLifetime) && !(← seesPunctAt 1 "+") then
    return { text := ← lifetime, isLifetime := true }
  else if (← seesA Tree.isIdentifier) && (← seesPunctAt 1 "=") then
    return { text := (← identifier) ++ (← punct "=") ++ (← boundTo g) }
  else if (← seesA Tree.isIdentifier) && (← seesPunctAt 1 ":") && !(← seesPunctAt 1 "::") then
    return { text := (← identifier) ++ (← punct ":") ++ (← constraintBounds g) }
  else if (← seesLiteral) || (← seesGroup .brace) then
    return { text := ← constant g }
  else return { text := ← typeArgument g }

/-- Read arguments in angle brackets: their text, and whether there are none. -/
def angleArguments (g : Grammar) : Reader (String × Bool) := do
  let opening ← punct "<"
  let arguments ← separated "," (sees ">") (argument g)
  let closing ← punct ">"
  let text := arguments.textWithFirst "," Argument.isLifetime Argument.text
  return (opening ++ text ++ closing, arguments.items.isEmpty)

/-- Whether arguments in angle brackets are ahead. Without `::` before them they are not looked for
in an expression. -/
def seesAngles (inExpression : Bool) : Reader Bool := do
  if (← sees "::") && (← seesPunctAt 2 "<") then return true
  return !inExpression && (← sees "<") && !(← sees "<=")

/-- Read a name of a path with its arguments in angle brackets. -/
def segment (g : Grammar) (inExpression : Bool) : Reader Segment := do
  let isBare ← seesWord ["super", "self", "crate"]
  let name ← pathName
  if !isBare && (← seesAngles inExpression) then
    let colons ← punctIf "::"
    let (arguments, isEmpty) ← angleArguments g
    return { name, arguments := colons ++ arguments, hasArguments := true, isOpen := isEmpty }
  else return { name }

/-- Read the further names of a path, up to arguments in parentheses. -/
def pathRest (g : Grammar) (inExpression : Bool) (p : PathText) : Reader PathText := do
  let segments ← many do
    if (← sees "::") && !(← seesAt 2 (·.isGroupOf .paren)) then
      discard <| punct "::"
      some <$> segment g inExpression
    else return none
  return segments.foldl PathText.push p

/-- Read a path. -/
def path (g : Grammar) (inExpression : Bool) : Reader PathText := do
  let start ← punctIf "::"
  let first ← segment g inExpression
  pathRest g inExpression (PathText.ofSegment start first)

/-- Read a path that may begin with a type in angle brackets, and tell whether it does. -/
def qualifiedPath (g : Grammar) (inExpression : Bool) : Reader (Bool × PathText) := do
  if ← sees "<" then
    let opening ← punct "<"
    let self := (← g.type true).text
    let trait ← readIf (seesWord ["as"]) do return (← keyword "as") ++ (← path g false).text
    let start := opening ++ self ++ trait ++ (← punct ">") ++ (← punct "::")
    let first ← segment g inExpression
    let others ← many do
      if ← skips "::" then some <$> segment g inExpression else return none
    return (true, others.foldl PathText.push (PathText.ofSegment start first))
  else return (false, ← path g inExpression)

/-- Read a return type, which may be missing: its text, and whether it is missing or stands in
parentheses. -/
def returnType (g : Grammar) (allowsPlus : Bool) : Reader (String × Bool) := do
  if ← sees "->" then
    let arrow ← punct "->"
    let found ← g.type allowsPlus
    return (arrow ++ found.text, found.form == .parens)
  else return ("", true)

/-- Whether arguments in parentheses are ahead, perhaps with `::` before them. -/
def seesCall : Reader Bool := do
  if ← seesGroup .paren then return true
  return (← sees "::") && (← seesAt 2 (·.isGroupOf .paren))

/-- Read arguments in parentheses and their return type: their text without `::` before them, and
whether a path may go on after them. -/
def callArguments (g : Grammar) : Reader (String × Bool) := do
  discard <| punctIf "::"
  let arguments ← grouped .paren (listText do return (← g.type true).text)
  let (output, mayGoOn) ← returnType g false
  return (arguments ++ output, mayGoOn)

/-- Read the body of a macro call if `!` is ahead and no name of the path has arguments. -/
def macroBody? (p : PathText) : Reader (Option String) := do
  if (← sees "!") && !(← sees "!=") && !p.hasArguments then
    return some ((← punct "!") ++ (← anyGroup))
  else return none

end Reader

end HybridHeap.Derive
