import HybridHeap.Derive.Grammar.Control

/-!
# Statements

The statements of a block: bindings, declarations and expressions. An expression that needs a
semicolon lacks it only at the end of the block.
-/

namespace HybridHeap.Derive.Reader

/-- Read the path of a macro call that is a statement of its own: braces follow it, which nothing is
joined to, or a name. -/
def calledPath : Reader Unit := do
  discard <| plainPath
  let isBraced ← seesAt 1 (·.isGroupOf .brace)
  let isJoined := (← seesPunctAt 2 ".") || (← seesPunctAt 2 "?")
  assert ((← sees "!") && ((isBraced && !isJoined) || (← seesAt 1 Tree.isIdentifier)))

/-- Read a macro call that is a statement of its own. -/
def macroStatement : Reader String :=
  asWritten do
    calledPath
    discard <| punct "!"
    discard <| readIf (seesA Tree.isIdentifier) identifier
    discard <| anyGroup
    punctIf ";"

/-- Read a binding, whose attributes have been read since `before` was ahead. One with a block for
the case that its pattern does not match is kept as it is written. -/
def binding (g : Grammar) (before : List Tree) (attributes : String) : Reader String := do
  let start := attributes ++ (← keyword "let") ++ (← anyOf g)
  let type ← readIf (sees ":") do return (← punct ":") ++ (← g.type true).text
  let isBound ← sees "="
  let value ← readIf (pure isBound) do return (← punct "=") ++ (← expressionText g)
  if isBound && (← seesWord ["else"]) then
    discard <| keyword "else"
    discard <| block g
    let text ← writtenSince before
    return text ++ (← punct ";")
  else return start ++ type ++ value ++ (← punct ";")

/-- Whether a static is ahead, rather than a closure. -/
def seesStatic : Reader Bool := do
  let isClosure := (← seesWordAt 1 ["async"]) &&
    ((← seesWordAt 2 ["move"]) || (← seesPunctAt 2 "|"))
  let isNamed := (← seesAt 1 Tree.isIdentifier) && !isClosure
  return (← seesWord ["static"]) && (isNamed || (← seesWordAt 1 ["mut"]))

/-- Whether the declaration of an item is ahead. -/
def seesDeclaration : Reader Bool := do
  let always := ["pub", "extern", "use", "fn", "mod", "type", "struct", "enum", "trait", "impl",
    "macro"]
  let isVisible := (← seesWord ["crate"]) && !(← seesPunctAt 1 "::")
  let isBlock ← seesAt 1 (·.isGroupOf .brace)
  let isMarked := (← seesWord ["const", "unsafe"]) && !isBlock
  let isAsync := (← seesWord ["async"]) && (← seesWordAt 1 ["unsafe", "extern", "fn"])
  let isUnion := (← seesWord ["union"]) && (← seesAt 1 Tree.isIdentifier)
  let isAuto := (← seesWord ["auto"]) && (← seesWordAt 1 ["trait"])
  let isDefault := (← seesWord ["default"]) && (← seesWordAt 1 ["unsafe", "impl"])
  return isVisible || isMarked || isAsync || isUnion || isAuto || isDefault ||
    (← seesWord always) || (← seesStatic)

/-- Read an expression with its semicolon, which may be missing where none is needed. -/
def expressionStatement (g : Grammar) (attributes : String) : Reader String := do
  let e := (← g.leading).withAttributes attributes
  if ← sees ";" then return e.text ++ (← punct ";")
  else
    assert (!e.needsSemicolon || (← atEnd))
    return e.text

/-- Read a statement. -/
def statement (g : Grammar) : Reader String := do
  let before ← get
  let attributes ← attributesText
  if ← succeeds calledPath then return attributes ++ (← macroStatement)
  else if ← seesWord ["let"] then binding g before attributes
  else if ← seesDeclaration then return (← g.declaration).withAttributes attributes
  else expressionStatement g attributes

/-- Read the statements up to the end of a block. -/
def statements (g : Grammar) : Reader String :=
  manyTexts do
    if ← atEnd then return none
    else if ← sees ";" then some <$> punct ";"
    else some <$> statement g

end HybridHeap.Derive.Reader
