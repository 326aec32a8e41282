import HybridHeap.Derive.Grammar.Generics
import HybridHeap.Derive.Grammar.Pattern

/-!
# Signatures

What is declared of a function before its body, and the generic parameters and predicates of any
declaration as text.
-/

namespace HybridHeap.Derive.Reader

/-- Read generic parameters with their defaults, which may be missing. -/
def genericsText (g : Grammar) : Reader String := paramsText GenericParam.text <$> generics g

/-- Read predicates, which may be missing. -/
def predicatesText (g : Grammar) : Reader String := Derive.predicatesText <$> predicates g

/-- Read a receiver. -/
def receiver : Reader String := do
  let reference ← readIf (sees "&") do return (← punct "&") ++ (← lifetimeIf)
  return reference ++ (← keywordIf "mut") ++ (← keyword "self")

/-- Whether a receiver without a type is ahead. -/
def seesReceiver : Reader Bool :=
  succeeds do
    discard <| receiver
    assert !(← sees ":")

/-- Read a parameter of a function, and tell whether it is a receiver. One that begins with a
generic type has no name. -/
def parameter (g : Grammar) : Reader (String × Bool) := do
  let attributes ← attributesText
  if ← sees "..." then return (attributes ++ (← punct "..."), false)
  else if ← seesReceiver then return (attributes ++ (← receiver), true)
  else
    let isNameless := (← seesA Tree.isIdentifier) && (← seesPunctAt 1 "<")
    let name ← if isNameless then pure "_:" else pure ((← g.pattern).text ++ (← punct ":"))
    let type ← if !isNameless && (← sees "...") then punct "..." else TypeText.text <$> g.type true
    return (attributes ++ name ++ type, false)

/-- Read the parameters of a function. No receiver follows another parameter. -/
def parameters (g : Grammar) : Reader String :=
  grouped .paren do
    let found ← list (parameter g)
    assert !(found.items.drop 1).any Prod.snd
    let texts : Separated String := { found with items := found.items.map Prod.fst }
    return texts.text ","

/-- Read a signature up to the name of the function. -/
def signatureStart : Reader String := do
  let modifiers := (← keywordIf "const") ++ (← keywordIf "async") ++ (← keywordIf "unsafe")
  return modifiers ++ (← conventionIf) ++ (← keyword "fn")

/-- Whether a signature is ahead. -/
def seesSignature : Reader Bool := succeeds signatureStart

/-- Read the signature of a function. -/
def signature (g : Grammar) : Reader String := do
  let start := (← signatureStart) ++ (← identifier) ++ (← genericsText g)
  let parameters ← parameters g
  let output := (← returnType g true).1
  return start ++ parameters ++ output ++ (← predicatesText g)

/-- Read a function, whose body may be a semicolon instead, and tell whether it has a body. -/
def function (g : Grammar) : Reader (String × Bool) := do
  let signature ← signature g
  if ← sees ";" then return (signature ++ (← punct ";"), false)
  else return (signature ++ (← attributedBlock g), true)

end HybridHeap.Derive.Reader
