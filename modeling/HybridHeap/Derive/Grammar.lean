import HybridHeap.Derive.Grammar.Declaration
import HybridHeap.Derive.Grammar.Expression
import HybridHeap.Derive.Grammar.Statement

/-!
# The grammar, level by level

The readers for types, patterns, expressions and declarations, each of which uses those one level
deeper. At most three levels pass between one token and the next, so that the length of a source
bounds how many levels are needed to read it.
-/

namespace HybridHeap.Derive

/-- The grammar of so many levels. The one without levels reads nothing. -/
def Grammar.ofDepth : Nat → Grammar
  | 0 =>
    { type := fun _ => failure
      bound := failure
      expression := fun _ => failure
      operand := fun _ => failure
      continued := fun _ _ _ => failure
      leading := failure
      pattern := failure
      statements := failure
      declaration := failure
      imports := failure }
  | depth + 1 =>
    { type := fun allowsPlus => Reader.type (ofDepth depth) allowsPlus
      bound := fun ts => Reader.bound (ofDepth depth) ts
      expression := fun allowsRecord => Reader.expression (ofDepth depth) allowsRecord
      operand := fun allowsRecord => Reader.operand (ofDepth depth) allowsRecord
      continued := fun allowsRecord base e => Reader.continued (ofDepth depth) allowsRecord base e
      leading := fun ts => Reader.leading (ofDepth depth) ts
      pattern := fun ts => Reader.pattern (ofDepth depth) ts
      statements := fun ts => Reader.statements (ofDepth depth) ts
      declaration := fun ts => Reader.declaration (ofDepth depth) ts
      imports := fun ts => Reader.imports (ofDepth depth) ts }

/-- A grammar of enough levels for a source of so many characters. -/
def Grammar.forLength (count : Nat) : Grammar := ofDepth (3 * (count + 2))

end HybridHeap.Derive
