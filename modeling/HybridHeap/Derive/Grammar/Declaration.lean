import HybridHeap.Derive.Grammar.Associated

/-!
# Declarations of items

The items that a block or a module can hold. A declaration is written again as it is, but for what
its parts change; one in a form that only some compilers take is kept as it is written.
-/

namespace HybridHeap.Derive.Reader

/-- Take a new name, which may be an underscore. -/
def newName : Reader String := do
  return (← keyword "as") ++ (← take fun t => t.isIdentifier || t.isOneOf ["_"])

/-- Read the names that an import takes from a path. -/
def imports (g : Grammar) : Reader String := do
  if (← seesA Tree.isIdentifier) || (← seesWord ["self", "super", "crate"]) then
    let name ← anyWord
    if ← sees "::" then return name ++ (← punct "::") ++ (← g.imports)
    else return name ++ (← readIf (seesWord ["as"]) newName)
  else if ← sees "*" then punct "*"
  else grouped .brace (listText g.imports)

/-- Read an import. -/
def importDeclaration (g : Grammar) : Reader String := do
  return (← keyword "use") ++ (← punctIf "::") ++ (← g.imports) ++ (← punct ";")

/-- Read the declaration of a crate. -/
def crateDeclaration : Reader String := do
  let start := (← keyword "extern") ++ (← keyword "crate")
  let name ← take fun t => t.isIdentifier || t.isOneOf ["self"]
  return start ++ name ++ (← readIf (seesWord ["as"]) newName) ++ (← punct ";")

/-- Read a foreign block. -/
def foreignBlock (g : Grammar) : Reader String := do
  return (← convention) ++ (← members (foreignMember g))

/-- Read a static. Its type or its value may be missing, but then it is kept. -/
def staticDeclaration (g : Grammar) : Reader Found := do
  let start := (← keyword "static") ++ (← keywordIf "mut") ++ (← identifier)
  if ← sees "=" then
    let value := (← punct "=") ++ (← expressionText g)
    return { text := start ++ value ++ (← punct ";"), isKept := true }
  else
    let found ← typedValue g
    return { text := start ++ found.text, isKept := !found.isGiven }

/-- Read a module. -/
def moduleDeclaration (g : Grammar) : Reader String := do
  let start := (← keyword "mod") ++ (← identifier)
  if ← sees ";" then return start ++ (← punct ";")
  else return start ++ (← members g.declaration)

/-- Read a trait or, if it is allowed, an alias for bounds. -/
def traitDeclaration (g : Grammar) (allowsAlias : Bool) : Reader String := do
  let start := (← keywordIf "unsafe") ++ (← keywordIf "auto") ++ (← keyword "trait")
  let start := start ++ (← identifier) ++ (← genericsText g)
  if allowsAlias && (← sees "=") then
    let stop := return (← seesWord ["where"]) || (← sees ";")
    let bounds := (← punct "=") ++ (← separatedText "+" stop (bound g))
    return start ++ bounds ++ (← predicatesText g) ++ (← punct ";")
  else
    let stop := return (← seesWord ["where"]) || (← seesGroup .brace)
    let bounds ← if ← skips ":" then separatedText "+" stop (bound g) else pure ""
    return start ++ afterColon bounds ++ (← predicatesText g) ++ (← members (traitMember g))

/-- Whether the generic parameters of an implementation are ahead, rather than a type. -/
def seesParameters : Reader Bool := do
  let isName := fun t : Tree => t.isIdentifier || t.isLifetime
  let follows := (← seesPunctAt 2 ":") || (← seesPunctAt 2 ",") || (← seesPunctAt 2 ">") ||
    (← seesPunctAt 2 "=")
  let isFirst := (← seesPunctAt 1 ">") || (← seesPunctAt 1 "#") || (← seesWordAt 1 ["const"])
  return (← sees "<") && (isFirst || ((← seesAt 1 isName) && follows))

/-- Read the type that an implementation is for, with the trait that is implemented if there is
one. -/
def implementedType (g : Grammar) : Reader Found := do
  let before ← get
  let isNegative := (← sees "!") && !(← seesAt 1 (·.isGroupOf .brace))
  let polarity ← readIf (pure isNegative) (punct "!")
  let first ← g.type true
  if ← seesWord ["for"] then
    let isTrait := match first.form with
      | .path _ => true
      | _ => false
    let rest := (← keyword "for") ++ (← g.type true).text
    return { text := polarity ++ first.text ++ rest, isKept := !isTrait }
  else if isNegative then return { text := ← writtenSince before }
  else return { text := first.text }

/-- Read an implementation. One that is constant is kept. -/
def implementation (g : Grammar) : Reader Found := do
  let start := (← keywordIf "default") ++ (← keywordIf "unsafe") ++ (← keyword "impl")
  let generics ← readIf seesParameters (genericsText g)
  let isConstant := (← seesWord ["const"]) || ((← sees "?") && (← seesWordAt 1 ["const"]))
  if isConstant then
    discard <| punctIf "?"
    discard <| keyword "const"
  let implemented ← implementedType g
  let predicates ← predicatesText g
  let members ← members (implementationMember g)
  return { text := start ++ generics ++ implemented.text ++ predicates ++ members
           isKept := isConstant || implemented.isKept }

/-- Read the definition of a macro. -/
def macroDefinition : Reader String := do
  let start := (← keyword "macro") ++ (← identifier)
  let parameters ← readIf (seesGroup .paren) anyGroup
  return start ++ parameters ++ (← take (·.isGroupOf .brace))

/-- Whether an implementation is ahead. -/
def seesImplementation : Reader Bool := do
  let isDefault := (← seesWord ["default"]) && !(← seesPunctAt 1 "!")
  return isDefault || (← seesWord ["impl"]) ||
    ((← seesWord ["unsafe"]) && (← seesWordAt 1 ["impl"]))

/-- Whether a trait is ahead that is unsafe or automatic. -/
def seesMarkedTrait : Reader Bool := do
  let isAuto := (← seesWord ["auto"]) && (← seesWordAt 1 ["trait"])
  let isUnsafeAuto := (← seesWordAt 1 ["auto"]) && (← seesWordAt 2 ["trait"])
  return isAuto || ((← seesWord ["unsafe"]) && ((← seesWordAt 1 ["trait"]) || isUnsafeAuto))

/-- Whether an item to derive for is ahead. -/
def seesItem : Reader Bool := do
  let isUnion := (← seesWord ["union"]) && (← seesAt 1 Tree.isIdentifier)
  return isUnion || (← seesWord ["struct", "enum"])

/-- Read a foreign block or a module that is unsafe. -/
def unsafeBlock (g : Grammar) : Reader String := do
  let start ← keyword "unsafe"
  if ← seesWord ["extern"] then return start ++ (← foreignBlock g)
  else return start ++ (← moduleDeclaration g)

/-- Read a declaration after its attributes and its visibility. -/
def declared (g : Grammar) (isVisible : Bool) : Reader Found := do
  if ← seesSignature then
    let (text, hasBody) ← function g
    return { text, isKept := !hasBody }
  else if (← seesWord ["extern"]) && (← seesWordAt 1 ["crate"]) then
    return { text := ← crateDeclaration }
  else if ← seesWord ["extern"] then
    assert !isVisible
    return { text := ← foreignBlock g }
  else if ← seesWord ["use"] then return { text := ← importDeclaration g }
  else if ← seesWord ["static"] then staticDeclaration g
  else if ← seesWord ["const"] then
    let found ← constantDeclaration g
    return { text := found.text, isKept := !found.isGiven }
  else if ← seesMarkedTrait then return { text := ← traitDeclaration g false }
  else if ← seesImplementation then
    let found ← implementation g
    return { found with isKept := found.isKept || isVisible }
  else if ← seesWord ["unsafe"] then return { text := ← unsafeBlock g, isKept := true }
  else if ← seesWord ["mod"] then return { text := ← moduleDeclaration g }
  else if ← seesWord ["type"] then
    let found ← aliasDeclaration g true false
    return { text := found.text, isKept := found.hasBounds || !found.isGiven }
  else if ← seesItem then
    return { text := (← item g).text }
  else if ← seesWord ["trait"] then return { text := ← traitDeclaration g true }
  else if ← seesWord ["macro"] then return { text := ← macroDefinition }
  else
    assert (!isVisible && (← seesMacroCall))
    return { text := ← macroDeclaration true }

/-- Read the declaration of an item. -/
def declaration (g : Grammar) : Reader Found :=
  settled do
    let attributes ← attributesText
    let visibility ← visibility
    let found ← declared g !visibility.isEmpty
    return { found with text := attributes ++ visibility ++ found.text }

end HybridHeap.Derive.Reader
