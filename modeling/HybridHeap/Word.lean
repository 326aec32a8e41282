/-!
# Machine words

Sizes and counts are natural numbers; the machine holds them in words of 64 bits. The operations
here are the ones whose outcome depends on that width.
-/

namespace HybridHeap.Word

/-- The largest number a word holds. -/
def largest : Nat := 0xffffffffffffffff

/-- The number itself if a word can hold it. -/
def fit? (n : Nat) : Option Nat := if n ≤ largest then some n else none

/-- The sum, cut off at the largest word. -/
def addSaturating (a b : Nat) : Nat := min (a + b) largest

/-- Twice the number, cut off at the largest word. -/
def doubleSaturating (a : Nat) : Nat := min (a * 2) largest

end HybridHeap.Word
