import HybridHeap.Derive.Grammar.Basic

/-!
# Names and numbers of fields

A field is referred to by its name or, if it has none, by its number, which is written again in
decimal digits. Two numbers in a row, as in `a.0.1`, are one literal with a point in it.
-/

namespace HybridHeap.Derive

/-- The most that the number of a field can be. -/
def mostFieldNumber : Nat := 4294967295

/-- The number of a field that a text gives: an integer that has no suffix and fits. -/
def fieldNumber? (text : String) : Option String :=
  match Literal.after? text.toList, Literal.form? text with
  | some [], some (.integer value suffix) =>
    if suffix.isEmpty && value ≤ mostFieldNumber then some (toString value) else none
  | _, _ => none

/-- The numbers of fields that a fraction gives, and whether a point is left after them. -/
def fieldNumbers? (text : String) : Option (String × Bool) := do
  let parts := text.splitOn "."
  let endsInPoint := 1 < parts.length && parts.getLast? == some ""
  let numbers ← (if endsInPoint then parts.dropLast else parts).mapM fieldNumber?
  return (".".intercalate numbers ++ (if endsInPoint then "." else ""), endsInPoint)

namespace Reader

/-- Take the number of a field. -/
def fieldNumber : Reader String := do
  match ← get with
  | .literal text :: rest =>
    set rest
    fieldNumber? text
  | _ => failure

/-- Take the name or number of a field, and tell whether it is a name. -/
def member : Reader (String × Bool) := do
  if ← seesA Tree.isIdentifier then return (← identifier, true)
  else return (← fieldNumber, false)

/-- Take the numbers of fields that a fraction gives, if one is ahead, and tell whether a further
field has to follow. -/
def fieldNumbers : Reader (String × Bool) := do
  match ← get with
  | .literal text :: rest =>
    if Literal.form? text == some .fraction then
      set rest
      fieldNumbers? text
    else return ("", true)
  | _ => return ("", true)

end Reader

end HybridHeap.Derive
