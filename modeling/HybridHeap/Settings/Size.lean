import HybridHeap.Text.Blank
import HybridHeap.Word

/-!
# Written sizes

Reading a decimal number that fits in a word, and reading a size: a number with an optional suffix
`K`, `M` or `G` for a power of 1024.
-/

namespace HybridHeap.Settings

/-- Why a text is not a number that fits in a word. -/
inductive NumberFault where
  | empty
  | badDigit
  | tooLarge
  deriving DecidableEq

/-- The wording of a fault in a number. -/
def NumberFault.message : NumberFault → String
  | empty => "cannot parse integer from empty string"
  | badDigit => "invalid digit found in string"
  | tooLarge => "number too large to fit in target type"

/-- Why a text is not a size. -/
inductive SizeFault where
  | number (fault : NumberFault)
  /-- The number fits in a word but not after it is multiplied by its suffix. -/
  | overflow
  deriving DecidableEq

/-- The wording of a fault in a size. -/
def SizeFault.message : SizeFault → String
  | number fault => fault.message
  | overflow => "size overflows usize"

/-- The value of an ASCII digit. -/
def digitValue? (c : Char) : Option Nat := if c.isDigit then some (c.toNat - 48) else none

/-- Read digits onto a number that is already there. Of two faults the one met first counts. -/
def parseDigits (n : Nat) : List Char → Except NumberFault Nat
  | [] => .ok n
  | c :: rest =>
    match digitValue? c with
    | none => .error .badDigit
    | some d =>
      if 10 * n + d ≤ Word.largest then parseDigits (10 * n + d) rest else .error .tooLarge

/-- Read a number: digits, after a plus sign if there is one. -/
def parseNumber : List Char → Except NumberFault Nat
  | [] => .error .empty
  | ['+'] => .error .badDigit
  | '+' :: digits => parseDigits 0 digits
  | digits => parseDigits 0 digits

/-- What a size suffix multiplies by, in either case. -/
def suffixFactor? (c : Char) : Option Nat :=
  match c.toUpper with
  | 'K' => some 1024
  | 'M' => some (1024 * 1024)
  | 'G' => some (1024 * 1024 * 1024)
  | _ => none

/-- The text before a suffix, and what the suffix multiplies by. -/
def splitSuffix (cs : List Char) : List Char × Nat :=
  match cs.getLast?.bind suffixFactor? with
  | some factor => (cs.dropLast, factor)
  | none => (cs, 1)

/-- Read a size. Blanks around it do not matter. -/
def parseSize (text : String) : Except SizeFault Nat :=
  let (digits, factor) := splitSuffix (Text.trimBlanks text.toList)
  match parseNumber digits with
  | .error fault => .error (.number fault)
  | .ok n => match Word.fit? (n * factor) with
    | some size => .ok size
    | none => .error .overflow

end HybridHeap.Settings
