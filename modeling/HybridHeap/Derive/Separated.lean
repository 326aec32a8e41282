/-!
# Things with separators between them

A row of things as it stands in a source, and how it is written again: as it was, or with some of
the things moved to the front.
-/

namespace HybridHeap.Derive

/-- Things in a row with separators between them, and perhaps one after the last. -/
structure Separated (α : Type) where
  items : List α
  endsInSeparator : Bool

namespace Separated

/-- A row without things. -/
def empty {α : Type} : Separated α := { items := [], endsInSeparator := false }

/-- The things with whether a separator follows each of them. -/
def pairs {α : Type} (s : Separated α) : List (α × Bool) :=
  s.items.zipIdx.map fun (a, i) => (a, i + 1 < s.items.length || s.endsInSeparator)

/-- The texts of things, each with the separator that follows it. -/
def textOfPairs {α : Type} (separator : String) (write : α → String) (pairs : List (α × Bool)) :
    String :=
  String.join (pairs.map fun (a, isFollowed) =>
    if isFollowed then write a ++ separator else write a)

/-- The texts of the things in a row with their separators. -/
def textBy {α : Type} (separator : String) (write : α → String) (s : Separated α) : String :=
  textOfPairs separator write s.pairs

/-- The texts in a row with their separators. -/
def text (separator : String) (s : Separated String) : String := s.textBy separator id

/-- The texts of the things in a row, those first for which `p` holds. Each brings the separator
that followed it, and one is put between the two parts if the first part does not end in one. -/
def textWithFirst {α : Type} (separator : String) (p : α → Bool) (write : α → String)
    (s : Separated α) : String :=
  let (first, others) := s.pairs.partition fun (a, _) => p a
  let lacksSeparator := !others.isEmpty && first.getLast?.any fun (_, isFollowed) => !isFollowed
  textOfPairs separator write first ++ (if lacksSeparator then separator else "") ++
    textOfPairs separator write others

end Separated

end HybridHeap.Derive
