import HybridHeap.Derive.Grammar.Path

/-!
# Types and bounds

A type is written again as it is, but for the paths in it and a quantifier's lifetimes, which lose
the colon of bounds that are missing.
-/

namespace HybridHeap.Derive.Reader

/-- Read the bounds of a lifetime after a colon, which may be missing. -/
def lifetimeBounds : Reader String := do
  if ← skips ":" then separatedText "+" (return (← sees ",") || (← sees ">")) lifetime
  else return ""

/-- Read the quantifier of a higher-ranked bound. -/
def quantifier : Reader String := do
  let start := (← keyword "for") ++ (← punct "<")
  let lifetimes ← separatedText "," (sees ">") do
    return (← attributesText) ++ (← lifetime) ++ afterColon (← lifetimeBounds)
  return start ++ lifetimes ++ (← punct ">")

/-- Read a quantifier if there is one. -/
def quantifierIf : Reader String := readIf (seesWord ["for"]) quantifier

/-- Read a bound that is a trait. -/
def traitBound (g : Grammar) : Reader String := do
  let start := (← punctIf "?") ++ (← quantifierIf)
  let p ← path g false
  if p.isOpen && (← seesCall) then return start ++ p.stem ++ (← callArguments g).1
  else return start ++ p.text

/-- Read a bound: a lifetime, or a trait, perhaps in parentheses. -/
def bound (g : Grammar) : Reader String := do
  if ← seesA Tree.isLifetime then lifetime
  else if ← seesGroup .paren then grouped .paren (traitBound g)
  else traitBound g

/-- Whether a further bound follows a plus sign. -/
def seesBound : Reader Bool := do
  let isStart := fun t : Tree => t.isWord || t.isLifetime || t.isGroupOf .paren
  return (← seesA isStart) || (← sees "::") || (← sees "?") || (← sees "~")

/-- Read bounds with plus signs between them, just one unless `allowsPlus`: their text, and whether
one of them is a trait. -/
def bounds (g : Grammar) (allowsPlus : Bool) : Reader (String × Bool) := do
  let one := do
    let isTrait := !(← seesA Tree.isLifetime)
    return (← bound g, isTrait)
  let (first, isTrait) ← one
  let others ← many do
    if allowsPlus && (← sees "+") then
      let plus ← punct "+"
      if ← seesBound then
        let (text, isTrait) ← one
        return some (plus ++ text, isTrait)
      else return some (plus, false)
    else return none
  return (first ++ String.join (others.map Prod.fst), isTrait || others.any Prod.snd)

/-- Read bounds in the place of a type, one of which has to be a trait. -/
def traitObject (g : Grammar) (allowsPlus : Bool) : Reader String := do
  let (text, hasTrait) ← bounds g allowsPlus
  assert hasTrait
  return text

/-- Read the bounds that follow one in parentheses, each after a plus sign. -/
def furtherBounds (g : Grammar) : Reader String :=
  manyTexts do
    if ← sees "+" then return some ((← punct "+") ++ (← bound g)) else return none

/-- What stands between parentheses in the place of a type. -/
inductive Parenthesized where
  /-- Nothing, or types with commas between them. -/
  | tuple (text : String)
  /-- Bounds that begin with a lifetime. -/
  | object (text : String)
  /-- A relaxed bound. -/
  | relaxed (text : String)
  | type (t : TypeText)

/-- Read what stands between parentheses in the place of a type. -/
def parenthesized (g : Grammar) : Reader Parenthesized := do
  if ← atEnd then return .tuple ""
  else if ← seesA Tree.isLifetime then return .object (← traitObject g true)
  else if ← sees "?" then return .relaxed (← traitBound g)
  else
    let first ← g.type true
    if ← sees "," then
      let comma ← punct ","
      return .tuple (first.text ++ comma ++ (← listText do return (← g.type true).text))
    else return .type first

/-- Read a tuple type, a type in parentheses, or bounds the first of which is in parentheses. -/
def parenType (g : Grammar) (allowsPlus : Bool) : Reader TypeText := do
  let around := Delimiter.paren.around
  match ← inside .paren (parenthesized g) with
  | .tuple text => return { text := around text }
  | .object text => return { text := around text, form := .parens }
  | .relaxed text =>
    let others ← furtherBounds g
    return { text := around text ++ others
             form := if others.isEmpty then .trait text else .other }
  | .type first =>
    let trait? := match first.form with
      | .path _ => some first.text
      | .trait bare => some bare
      | _ => none
    match trait? with
    | some bare =>
      if allowsPlus && (← sees "+") then return { text := around bare ++ (← furtherBounds g) }
      else return { text := around first.text, form := .parens }
    | none => return { text := around first.text, form := .parens }

/-- An argument of a function pointer. -/
inductive PointerArgument where
  | plain (text : String)
  /-- A mutable receiver, which only old sources have. -/
  | receiver
  /-- Points that stand for any further arguments. -/
  | rest (text : String)

namespace PointerArgument

/-- The argument as text, unless it is a receiver. -/
def text : PointerArgument → String
  | plain text => text
  | receiver => ""
  | rest text => text

/-- Whether the argument is a mutable receiver. -/
def isReceiver : PointerArgument → Bool
  | receiver => true
  | _ => false

/-- Whether the argument stands for any further ones. -/
def isRest : PointerArgument → Bool
  | rest _ => true
  | _ => false

end PointerArgument

/-- Read an argument of a function pointer. -/
def pointerArgument (g : Grammar) : Reader PointerArgument := do
  let attributes ← attributesText
  let isName := fun t : Tree => t.isIdentifier || t.isOneOf ["_", "self"]
  if ← sees "..." then return .rest (attributes ++ (← punct "..."))
  else if (← seesWord ["mut"]) && (← seesWordAt 1 ["self"]) then
    discard <| keyword "mut"
    discard <| keyword "self"
    if ← seesColon then
      discard <| punct ":"
      discard <| g.type true
    return .receiver
  else
    let hasName := (← seesA isName) && (← seesPunctAt 1 ":") && !(← seesPunctAt 1 "::")
    let name ← if hasName then pure ((← anyWord) ++ (← punct ":")) else pure ""
    let type ← if ← sees "..." then punct "..." else TypeText.text <$> g.type true
    return .plain (attributes ++ name ++ type)

/-- Read the arguments of a function pointer, and tell whether a receiver is among them. Points
without a name come last and have no comma after them; one argument at most follows receivers. -/
def pointerArguments (g : Grammar) : Reader (String × Bool) := do
  let found ← list (pointerArgument g)
  let last := found.items.length - 1
  assert (found.items.zipIdx.all fun (a, i) =>
    !a.isRest || (i == last && !found.endsInSeparator))
  let afterReceiver := found.items.dropWhile fun a => !a.isReceiver
  assert ((afterReceiver.filter fun a => !a.isReceiver).length ≤ 1)
  let texts : Separated String := { found with items := found.items.map PointerArgument.text }
  return (texts.text ",", !afterReceiver.isEmpty)

/-- Read a calling convention. -/
def convention : Reader String := do
  return (← keyword "extern") ++ (← readIf (succeeds textLiteral) textLiteral)

/-- Read a calling convention if there is one. -/
def conventionIf : Reader String := readIf (seesWord ["extern"]) convention

/-- Read a function pointer type, and tell whether it has a receiver. -/
def functionPointer (g : Grammar) : Reader (String × Bool) := do
  let start := (← keywordIf "unsafe") ++ (← conventionIf) ++ (← keyword "fn")
  let (arguments, hasReceiver) ← inside .paren (pointerArguments g)
  let output ← returnType g false
  return (start ++ Delimiter.paren.around arguments ++ output.1, hasReceiver)

/-- Read the arguments in parentheses that follow a path in the place of a type. The path may go on
after them if their return type is missing or stands in parentheses. -/
def appliedPath? (g : Grammar) (p : PathText) : Reader (Option PathText) := do
  if p.isOpen && (← seesCall) then
    let (arguments, mayGoOn) ← callArguments g
    let p := p.applied arguments
    if mayGoOn then some <$> pathRest g false p else return some p
  else return none

/-- Read a type that begins with a path, after its quantifier if there is one: the path, the bounds
that it begins, or a macro call, which loses the quantifier. -/
def pathType (g : Grammar) (allowsPlus : Bool) (quantifier : String) : Reader TypeText := do
  let (isQualified, start) ← qualifiedPath g false
  let p ← iterate (appliedPath? g) start
  if isQualified then return { text := quantifier ++ p.text }
  if let some body ← macroBody? p then return { text := p.text ++ body }
  if allowsPlus && (← sees "+") then
    let others ← manyTexts do
      if ← sees "+" then
        return some ((← punct "+") ++ (← readIf seesBound (bound g)))
      else return none
    return { text := quantifier ++ p.text ++ others }
  else if quantifier.isEmpty then
    return { text := p.text, form := .path p.isGenericName }
  else return { text := quantifier ++ p.text, form := .trait (quantifier ++ p.text) }

/-- Read a type that begins with `dyn`. -/
def dynType (g : Grammar) (allowsPlus : Bool) : Reader TypeText := do
  if ← seesPunctAt 1 "*" then
    return { text := ← asWritten do
      discard <| keyword "dyn"
      discard <| punct "*"
      traitObject g allowsPlus }
  else return { text := (← keyword "dyn") ++ (← traitObject g allowsPlus) }

/-- Read a slice or array type. -/
def bracketType (g : Grammar) : Reader String :=
  grouped .bracket do
    let item := (← g.type true).text
    return item ++ (← readIf (sees ";") do return (← punct ";") ++ (← g.expression true).text)

/-- Whether a token may begin a type after a quantifier. -/
def isQuantifiable (t : Tree) : Bool :=
  (t.isIdentifier && !t.isOneOf ["dyn"]) || t.isOneOf (["fn", "unsafe", "extern"] ++ pathWords)

/-- Read a type. Plus signs belong to it only if `allowsPlus`. A function pointer with a receiver is
kept as it is written. -/
def type (g : Grammar) (allowsPlus : Bool) : Reader TypeText := do
  let before ← get
  let quantifier ← quantifierIf
  if !quantifier.isEmpty then assert (← seesA isQuantifiable)
  if ← seesGroup .paren then parenType g allowsPlus
  else if ← seesWord ["fn", "unsafe", "extern"] then
    let (text, hasReceiver) ← functionPointer g
    if hasReceiver then return { text := ← writtenSince before }
    else return { text := quantifier ++ text }
  else if ← seesWord ["dyn"] then dynType g allowsPlus
  else if (← seesA Tree.isIdentifier) || (← seesWord pathWords) || (← sees "::") ||
      (← sees "<") then
    pathType g allowsPlus quantifier
  else if ← seesGroup .bracket then return { text := ← bracketType g }
  else if ← sees "*" then
    let start := (← punct "*") ++ (← take (·.isOneOf ["const", "mut"]))
    return { text := start ++ (← g.type false).text }
  else if ← sees "&" then
    let start := (← punct "&") ++ (← lifetimeIf) ++ (← keywordIf "mut")
    return { text := start ++ (← g.type false).text }
  else if ← sees "!" then return { text := ← punct "!" }
  else if ← seesWord ["impl"] then
    return { text := (← keyword "impl") ++ (← traitObject g allowsPlus) }
  else if ← seesWord ["_"] then return { text := ← keyword "_" }
  else
    assert (← seesA Tree.isLifetime)
    return { text := ← traitObject g true }

end HybridHeap.Derive.Reader
