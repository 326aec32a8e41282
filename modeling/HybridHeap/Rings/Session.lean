import HybridHeap.Collector.Allocate
import HybridHeap.Collector.Check

/-!
# Moving nodes between lists

A caller that makes lists of its own and moves the nodes of a heap between them and the heap's live
list. No collection is due while it does so; checking the heap tells whether the live list still
holds every node.
-/

namespace HybridHeap.Rings

/-- A heap and the lists made so far; one that was dropped is gone. -/
structure Session where
  heap : Heap
  lists : Array (Option ListId)

/-- What the caller can do. A list is named by its number in the order of creation. -/
inductive Move where
  | newList
  | push (list : Nat) (n : NodeId)
  /-- Move all nodes of `source` to the back of `list`. -/
  | splice (list source : Nat)
  | front (list : Nat)
  | isEmpty (list : Nat)
  /-- Drop a list; its nodes are on no list then. -/
  | drop (list : Nat)
  | check
  /-- A move that cannot be understood. -/
  | senseless

/-- What a move gives back. -/
inductive Seen where
  | nothing
  | number (n : Nat)
  | front (n : Option NodeId)
  | flag (b : Bool)
  | violation (v : Violation)
  | refused

namespace Session

/-- Settings under which no collection is due. -/
def quiet : Settings :=
  { Settings.standard with margin := Word.largest, trigger := Word.largest, fatalPolicy := .panic }

/-- Allocate so many nodes that hold nothing. -/
def allocateNodes : Nat → Act Unit
  | 0 => pure ()
  | count + 1 => do
    discard <| Collector.allocate (fun _ => pure []) 1 .empty
      { places := [], hidden := [], tag := 0, borrowed := false, hook := none }
    allocateNodes count

/-- A heap with so many nodes, and no lists of the caller. -/
def start (count : Nat) : Session :=
  match allocateNodes count (Heap.new quiet (Memory.Allocator.new none none)) with
  | .ok _ heap => ⟨heap, #[]⟩
  | .error _ heap => ⟨heap, #[]⟩

/-- The list of that number. -/
def list? (s : Session) (list : Nat) : Option ListId := s.lists[list]?.join

/-- Change the links. -/
def relink (s : Session) (f : Rings → Rings) : Session :=
  { s with heap := s.heap.modifyRings f }

/-- Make a move, if it makes sense. -/
def move? (s : Session) : Move → Option (Session × Seen)
  | .newList =>
    let (l, rings) := s.heap.rings.newList
    some (⟨{ s.heap with rings }, s.lists.push (some l)⟩, .number s.lists.size)
  | .push list n => do
    let l ← s.list? list
    if s.heap.isAllocated n then some (s.relink (·.pushBack l n), .nothing) else none
  | .splice list source => do
    let l ← s.list? list
    let other ← s.list? source
    if list = source then none else some (s.relink (·.spliceBack l other), .nothing)
  | .front list => do
    let l ← s.list? list
    some (s, .front (s.heap.rings.front? l))
  | .isEmpty list => do
    let l ← s.list? list
    some (s, .flag (s.heap.rings.isEmpty l))
  | .drop list => do
    let l ← s.list? list
    some ({ s.relink (·.clear l) with lists := s.lists.setIfInBounds list none }, .nothing)
  | .check => match Collector.check s.heap with
    | .ok report => some (s, .number report.live)
    | .error v => some (s, .violation v)
  | .senseless => none

/-- Make a move; one that makes no sense is refused. -/
def move (s : Session) (m : Move) : Session × Seen := (s.move? m).getD (s, .refused)

/-- The nodes on each list of the caller. -/
def contents (s : Session) : List (Option (List NodeId)) :=
  s.lists.toList.map fun list => list.map s.heap.rings.toList

/-- Make moves in order; the result has what each of them gave back and the lists after it. -/
def moveEach (s : Session) : List Move → List (Seen × List (Option (List NodeId)))
  | [] => []
  | m :: rest =>
    let (s, seen) := s.move m
    (seen, s.contents) :: moveEach s rest

end Session

end HybridHeap.Rings
