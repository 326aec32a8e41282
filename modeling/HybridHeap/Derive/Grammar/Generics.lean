import HybridHeap.Derive.Grammar.Type

/-!
# Generic parameters and predicates

The parameters in angle brackets after the name of an item, with their bounds and defaults, and the
predicates after `where`.
-/

namespace HybridHeap.Derive.Reader

/-- Read the bounds of a type parameter, which may be missing: their text, and whether one of them
holds in constant contexts only. -/
def parameterBounds (g : Grammar) : Reader (String × Bool) := do
  let stop := return (← sees ",") || (← sees ">") || (← sees "=")
  let found ← separated "+" stop do
    if (← sees "~") && (← seesWordAt 1 ["const"]) then
      discard <| punct "~"
      discard <| keyword "const"
      return (← bound g, true)
    else return (← bound g, false)
  let texts : Separated String := { found with items := found.items.map Prod.fst }
  return (texts.text "+", found.items.any Prod.snd)

/-- Read a default after an equals sign, if there is one. -/
def defaultIf (read : Reader String) : Reader String :=
  readIf (sees "=") do return (← punct "=") ++ (← read)

/-- Read a type parameter and its default. If a bound holds in constant contexts only, all that
follows the colon counts as the default. -/
def typeParameter (g : Grammar) (attributes : String) : Reader GenericParam := do
  let name ← identifier
  if ← skips ":" then
    let before ← get
    let (bounds, isConstant) ← parameterBounds g
    let default ← defaultIf do return (← g.type true).text
    if isConstant then return .type attributes name "" (":" ++ (← writtenSince before))
    else return .type attributes name bounds default
  else return .type attributes name "" (← defaultIf do return (← g.type true).text)

/-- Read a constant parameter and its default. -/
def constantParameter (g : Grammar) (attributes : String) : Reader GenericParam := do
  discard <| keyword "const"
  let name ← identifier
  discard <| punct ":"
  let type := (← g.type true).text
  return .const attributes name type (← defaultIf (constant g))

/-- Read a generic parameter. -/
def genericParam (g : Grammar) : Reader GenericParam := do
  let attributes ← attributesText
  if ← seesA Tree.isLifetime then return .lifetime attributes (← lifetime) (← lifetimeBounds)
  else if ← seesWord ["const"] then constantParameter g attributes
  else if ← seesWord ["_"] then return .type attributes (← keyword "_") "" ""
  else typeParameter g attributes

/-- Read the generic parameters, which may be missing. -/
def generics (g : Grammar) : Reader (Separated GenericParam) := do
  if ← skips "<" then
    let parameters ← separated "," (sees ">") (genericParam g)
    discard <| punct ">"
    return parameters
  else return .empty

/-- Whether the predicates, or the bounds of one of them, are over. -/
def seesPredicateEnd : Reader Bool := do
  if (← atEnd) || (← seesGroup .brace) then return true
  return (← sees ",") || (← sees ";") || (← seesColon) || (← sees "=")

/-- Read a predicate. -/
def predicate (g : Grammar) : Reader String := do
  if (← seesA Tree.isLifetime) && (← seesPunctAt 1 ":") then
    let start := (← lifetime) ++ (← punct ":")
    return start ++ (← separatedText "+" seesPredicateEnd lifetime)
  else
    let start := (← quantifierIf) ++ (← g.type true).text ++ (← punct ":")
    return start ++ (← separatedText "+" seesPredicateEnd (bound g))

/-- Read the predicates, which may be missing. -/
def predicates (g : Grammar) : Reader (Separated String) := do
  if ← skipsWord "where" then separated "," seesPredicateEnd (predicate g) else return .empty

end HybridHeap.Derive.Reader
