import HybridHeap.Text.Quoted

/-!
# Shown values

The notation in which a value shows what it is made of: a record is its name with its fields in
braces, a value that may be missing is `Some` with the value or `None`.
-/

namespace HybridHeap.Text

/-- A record: its name, then each field with its shown value, in order. -/
def record (name : String) (fields : List (String × String)) : String :=
  let shown := fields.map fun (field, value) => field ++ ": " ++ value
  name ++ " \x7b " ++ ", ".intercalate shown ++ " \x7d"

/-- A value that may be missing, given how the value itself is shown. -/
def optional {α : Type} (showValue : α → String) : Option α → String
  | none => "None"
  | some a => "Some(" ++ showValue a ++ ")"

/-- A truth value. -/
def truth (b : Bool) : String := if b then "true" else "false"

end HybridHeap.Text
