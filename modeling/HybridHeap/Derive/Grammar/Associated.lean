import HybridHeap.Derive.Grammar.Access
import HybridHeap.Derive.Grammar.Fields
import HybridHeap.Derive.Grammar.Signature

/-!
# Declarations with a type or a value

Type aliases, constants, functions and macro calls, as they stand alone or among the members of a
trait, of an implementation or of a foreign block. Some of them are kept as they are written.
-/

namespace HybridHeap.Derive

/-- A declaration of a type or value. -/
structure Definition where
  text : String
  /-- Whether the type or value is given. -/
  isGiven : Bool
  hasBounds : Bool := false

namespace Reader

/-- Read declarations between braces, after attributes of what they belong to. -/
def members (one : Reader Found) : Reader String :=
  grouped .brace do
    let attributes ← innerAttributes
    let members ← many do if ← atEnd then return none else some <$> one
    return attributes ++ String.join (members.map Found.text)

/-- Read the value of a constant or static after its name, with its type. -/
def typedValue (g : Grammar) : Reader Definition := do
  let type := (← punct ":") ++ (← g.type true).text
  let isGiven ← sees "="
  let value ← readIf (pure isGiven) do return (← punct "=") ++ (← expressionText g)
  return { text := type ++ value ++ (← punct ";"), isGiven }

/-- Read a constant. -/
def constantDeclaration (g : Grammar) : Reader Definition := do
  let start := (← keyword "const") ++ (← take fun t => t.isIdentifier || t.isOneOf ["_"])
  let value ← typedValue g
  return { value with text := start ++ value.text }

/-- Read a type alias. Predicates stand before the type, after it, or at either place. -/
def aliasDeclaration (g : Grammar) (allowsBefore allowsAfter : Bool) : Reader Definition := do
  let start := (← keyword "type") ++ (← identifier) ++ (← genericsText g)
  let hasBounds ← sees ":"
  let stop := return (← seesWord ["where"]) || (← sees "=") || (← sees ";")
  let bounds ← if ← skips ":" then separatedText "+" stop (bound g) else pure ""
  let isBefore := allowsBefore && (← seesWord ["where"])
  let before ← readIf (pure isBefore) (predicatesText g)
  let isGiven ← sees "="
  let type ← readIf (pure isGiven) do return (← punct "=") ++ (← g.type true).text
  let after ← readIf (pure (allowsAfter && !isBefore)) (predicatesText g)
  let text := start ++ afterColon bounds ++ before ++ type ++ after ++ (← punct ";")
  return { text, isGiven, hasBounds }

/-- Whether a macro call is ahead in the place of a declaration. -/
def seesMacroCall : Reader Bool := do
  let isStart := fun t : Tree => t.isIdentifier || t.isOneOf ["self", "super", "crate"]
  return (← seesA isStart) || (← sees "::")

/-- Read a macro call in the place of a declaration, perhaps with a name before its body. -/
def macroDeclaration (allowsName : Bool) : Reader String :=
  asWritten do
    discard <| plainPath
    discard <| punct "!"
    if allowsName && (← seesA Tree.isIdentifier) then discard <| identifier
    let isBraced ← seesGroup .brace
    discard <| anyGroup
    if !isBraced then discard <| punct ";"

/-- Read a member of a trait. It is kept if it has a visibility or is a default. -/
def traitMember (g : Grammar) : Reader Found :=
  settled do
    let attributes ← attributesText
    let start := (← visibility) ++ (← keywordIf "default")
    let isKept := !start.isEmpty
    if ← seesSignature then return { text := attributes ++ (← function g).1, isKept }
    else if ← seesWord ["const"] then
      return { text := attributes ++ (← constantDeclaration g).text, isKept }
    else if ← seesWord ["type"] then
      return { text := attributes ++ (← aliasDeclaration g false true).text, isKept }
    else
      assert (!isKept && (← seesMacroCall))
      return { text := attributes ++ (← macroDeclaration false) }

/-- Read a member of an implementation. -/
def implementationMember (g : Grammar) : Reader Found :=
  settled do
    let start := (← attributesText) ++ (← visibility)
    let isDefault := (← seesWord ["default"]) && !(← seesPunctAt 1 "!")
    let start := start ++ (← readIf (pure isDefault) (keyword "default"))
    if ← seesSignature then
      let (text, hasBody) ← function g
      return { text := start ++ text, isKept := !hasBody }
    else if ← seesWord ["const"] then
      let found ← constantDeclaration g
      return { text := start ++ found.text, isKept := !found.isGiven }
    else if ← seesWord ["type"] then
      let found ← aliasDeclaration g false true
      return { text := start ++ found.text, isKept := found.hasBounds || !found.isGiven }
    else
      assert (← seesMacroCall)
      return { text := start ++ (← macroDeclaration false) }

/-- Read a member of a foreign block. -/
def foreignMember (g : Grammar) : Reader Found :=
  settled do
    let attributes ← attributesText
    let visibility ← visibility
    let start := attributes ++ visibility
    if ← seesSignature then
      let (text, hasBody) ← function g
      return { text := start ++ text, isKept := hasBody }
    else if ← seesWord ["static"] then
      let start := start ++ (← keyword "static") ++ (← keywordIf "mut") ++ (← identifier)
      let found ← typedValue g
      return { text := start ++ found.text, isKept := found.isGiven }
    else if ← seesWord ["type"] then
      return { text := start ++ (← aliasDeclaration g true true).text, isKept := true }
    else
      assert (visibility.isEmpty && (← seesMacroCall))
      return { text := start ++ (← macroDeclaration false) }

end Reader

end HybridHeap.Derive
