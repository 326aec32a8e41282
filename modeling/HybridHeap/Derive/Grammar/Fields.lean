import HybridHeap.Derive.Grammar.Generics

/-!
# Fields and items

The items to derive for, with their fields and variants. The attributes and the visibility of an
item and the visibilities of variants are read and dropped.
-/

namespace HybridHeap.Derive.Reader

/-- Read what restricts a visibility, in parentheses, if that is what the parentheses hold. -/
def restrictionIf : Reader String := do
  let isWord := fun t : Tree => match t with
    | .group .paren [w] => w.isOneOf ["crate", "self", "super"]
    | _ => false
  let isPath := fun t : Tree => match t with
    | .group .paren (w :: _) => w.isOneOf ["in"]
    | _ => false
  if ← seesA isWord then anyGroup
  else if ← seesA isPath then
    grouped .paren do
      asWritten do
        discard <| keyword "in"
        plainPath
  else return ""

/-- Read a visibility, which may be missing. -/
def visibility : Reader String := do
  if ← seesWord ["pub"] then return (← keyword "pub") ++ (← restrictionIf)
  else if (← seesWord ["crate"]) && !(← seesPunctAt 1 "::") then keyword "crate"
  else return ""

/-- Read a field without a name. -/
def tupleField (g : Grammar) : Reader Field := do
  let attributes ← attributes
  let visibility ← visibility
  return { attributes, visibility, type := (← g.type true).text }

/-- Read a field with its name. -/
def namedField (g : Grammar) : Reader (String × Field) := do
  let attributes ← attributes
  let visibility ← visibility
  let name ← take fun t => t.isIdentifier || t.isOneOf ["_"]
  discard <| punct ":"
  return (name, { attributes, visibility, type := (← g.type true).text })

/-- Read fields in parentheses. -/
def tupleFields (g : Grammar) : Reader (Separated Field) := inside .paren (list (tupleField g))

/-- Read fields in braces. -/
def namedFields (g : Grammar) : Reader (Separated (String × Field)) :=
  inside .brace (list (namedField g))

/-- Read a variant. -/
def variant (g : Grammar) : Reader Variant := do
  let attributes ← attributes
  discard <| visibility
  let name ← identifier
  let fields ←
    if ← seesGroup .brace then .named <$> namedFields g
    else if ← seesGroup .paren then .tuple <$> tupleFields g
    else pure .unit
  let value ← defaultIf do return (← g.expression true).text
  return { attributes, name, fields, value }

/-- Read what follows the generic parameters of a struct. -/
def structBody (g : Grammar) : Reader (Separated String × Fields) := do
  if ← seesGroup .paren then
    let fields ← tupleFields g
    let predicates ← predicates g
    discard <| punct ";"
    return (predicates, .tuple fields)
  else
    let predicates ← predicates g
    if ← seesGroup .brace then return (predicates, .named (← namedFields g))
    else
      discard <| punct ";"
      return (predicates, .unit)

/-- Read a struct, enum or union. -/
def item (g : Grammar) : Reader Item := do
  discard <| attributes
  discard <| visibility
  if ← skipsWord "struct" then
    let name ← identifier
    let generics ← generics g
    let (predicates, fields) ← structBody g
    return { name, generics, predicates, body := .struct fields }
  else if ← skipsWord "enum" then
    let name ← identifier
    let generics ← generics g
    let predicates ← predicates g
    let variants ← inside .brace (list (variant g))
    return { name, generics, predicates, body := .enum variants }
  else
    discard <| keyword "union"
    let name ← identifier
    let generics ← generics g
    let predicates ← predicates g
    return { name, generics, predicates, body := .union (← namedFields g) }

end HybridHeap.Derive.Reader
