import HybridHeap.Derive.Reader

/-!
# Operators between operands

The operators of expressions and how tightly they bind.
-/

namespace HybridHeap.Derive

/-- How tightly an operator binds, from loose to tight. -/
inductive Precedence where
  /-- No operator at all. -/
  | any
  | assign
  | range
  | or
  | and
  | compare
  | bitOr
  | bitXor
  | bitAnd
  | shift
  | sum
  | product
  | cast
  deriving DecidableEq

namespace Precedence

/-- The place in the order from loose to tight. -/
def rank : Precedence → Nat
  | any => 0
  | assign => 1
  | range => 2
  | or => 3
  | and => 4
  | compare => 5
  | bitOr => 6
  | bitXor => 7
  | bitAnd => 8
  | shift => 9
  | sum => 10
  | product => 11
  | cast => 12

/-- Whether the first binds at least as tightly as the second. -/
def atLeast (p q : Precedence) : Bool := q.rank ≤ p.rank

/-- Whether the first binds more tightly than the second. -/
def above (p q : Precedence) : Bool := q.rank < p.rank

end Precedence

/-- The operators between two operands, longer ones before those that they begin with. A plain `=`
and the range operators are not among them. -/
def binaryOperators : List (String × Precedence) :=
  [("+=", .assign), ("-=", .assign), ("*=", .assign), ("/=", .assign), ("%=", .assign),
   ("^=", .assign), ("&=", .assign), ("|=", .assign), ("<<=", .assign), (">>=", .assign),
   ("&&", .and), ("||", .or), ("<<", .shift), (">>", .shift), ("==", .compare), ("<=", .compare),
   ("!=", .compare), (">=", .compare), ("+", .sum), ("-", .sum), ("*", .product),
   ("/", .product), ("%", .product), ("^", .bitXor), ("&", .bitAnd), ("|", .bitOr),
   ("<", .compare), (">", .compare)]

namespace Reader

/-- The operator between two operands that is ahead. -/
def binaryAhead : Reader (Option (String × Precedence)) := do
  let ts ← get
  return binaryOperators.find? fun (o, _) => beginsPunct o.toList ts

/-- How tightly what is ahead binds to an operand before it. -/
def precedenceAhead : Reader Precedence := do
  if let some (_, precedence) ← binaryAhead then return precedence
  else if (← sees "=") && !(← sees "=>") then return .assign
  else if ← sees ".." then return .range
  else if (← seesWord ["as"]) || (← seesColon) then return .cast
  else return .any

/-- Take the operator of a range, which is written with an equals sign if it has three points. -/
def rangeOperator : Reader String := do
  if ← sees "..=" then punct "..="
  else if ← sees "..." then
    discard <| punct "..."
    return "..="
  else punct ".."

end Reader

end HybridHeap.Derive
