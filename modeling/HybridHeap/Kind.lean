import HybridHeap.Text.Record

/-!
# Kinds of payload

What the collector has to know about the type of a payload: how it is called, how many bytes a node
of it takes, how many edges it can hold and where it keeps them, and how those places may change
after the node is built.
-/

namespace HybridHeap

/-- The kinds of payload a node can hold. -/
inductive Kind where
  | node
  | wrap
  | deque
  | secret
  | pair
  | array
  | link
  | tuple
  | slice
  | enum
  | prims
  | empty
  | wide
  | blob256
  | blob4k
  | blob64k
  | overaligned
  /-- The cell of the synthetic workload: two edges and a number. -/
  | cons
  deriving DecidableEq

/-- Where a payload keeps its traced edges. -/
inductive Shape where
  /-- A list that edges are added to and removed from. -/
  | list
  /-- So many places, each of which can be emptied and filled. -/
  | slots (count : Nat)
  /-- So many places that are filled when the node is built and stay as they are. -/
  | fixedSlots (count : Nat)
  /-- The edges the node is built with, at most so many if there is a bound; they stay. -/
  | fixedList (bound : Option Nat)
  deriving DecidableEq

namespace Kind

/-- The name by which a kind is asked for. -/
def ofName? : String → Option Kind
  | "node" => some node
  | "wrap" => some wrap
  | "deque" => some deque
  | "secret" => some secret
  | "pair" => some pair
  | "array" => some array
  | "link" => some link
  | "tuple" => some tuple
  | "slice" => some slice
  | "enum" => some enum
  | "prims" => some prims
  | "empty" => some empty
  | "wide" => some wide
  | "blob256" => some blob256
  | "blob4k" => some blob4k
  | "blob64k" => some blob64k
  | "over" => some overaligned
  | _ => none

/-- The type of an erased counted edge, as type names spell it. -/
def erasedEdge : String := "rcmark_heap::object::core::AnyEdge"

/-- The name of the payload's type. -/
def typeName : Kind → String
  | node => "Node"
  | wrap => "Wrap<core::cell::RefCell<alloc::vec::Vec<" ++ erasedEdge ++ ">>>"
  | deque => "Deque"
  | secret => "Secret"
  | pair => "Pair"
  | array => "Array"
  | link => "Link"
  | tuple => "Tuple"
  | slice => "Slice"
  | enum => "Enum"
  | prims => "Prims"
  | empty => "Empty"
  | wide => "Wide"
  | blob256 => "Blob<256>"
  | blob4k => "Blob<4096>"
  | blob64k => "Blob<65536>"
  | overaligned => "Over"
  | cons => "Cons"

/-- The bytes of storage one node of the kind takes, header included. -/
def size : Kind → Nat
  | node | wrap | pair | array | enum | cons => 80
  | deque => 88
  | secret => 112
  | link | slice => 64
  | tuple => 104
  | prims => 160
  | empty => 48
  | wide | overaligned => 96
  | blob256 => 304
  | blob4k => 4144
  | blob64k => 65584

/-- The alignment the payload needs, in bytes. -/
def alignment : Kind → Nat
  | overaligned => 32
  | _ => 16

/-- Where the payload keeps its traced edges. -/
def shape : Kind → Shape
  | node | wrap | deque | secret => .list
  | pair | cons => .slots 2
  | array => .slots 3
  | link => .slots 1
  | tuple => .fixedSlots 9
  | slice => .fixedList none
  | enum => .fixedList (some 2)
  | prims | empty | wide | blob256 | blob4k | blob64k | overaligned => .fixedList (some 0)

/-- The most edges a node of the kind can be built with, if there is a bound. -/
def capacity (k : Kind) : Option Nat :=
  match k.shape with
  | .list => none
  | .slots n => some n
  | .fixedSlots n => some n
  | .fixedList bound => bound

/-- The type of the cell that keeps the edges, for the kinds whose cell can be held borrowed across
a collection. -/
def cellName? : Kind → Option String
  | node => some ("core::cell::RefCell<alloc::vec::Vec<" ++ erasedEdge ++ ">>")
  | link =>
    some ("core::cell::RefCell<core::option::Option<rcmark_heap::object::core::GcEdge<" ++
      link.typeName ++ ">>>")
  | deque =>
    some ("core::cell::RefCell<alloc::collections::vec_deque::VecDeque<" ++ erasedEdge ++ ">>")
  | _ => none

/-- The operations table of a kind, as it is shown. -/
def tableText (k : Kind) : String :=
  Text.record "NodeVTable" [("type", Text.quoted k.typeName), ("size", toString k.size)]

end Kind

/-- The alignment of every block of storage, in bytes. -/
def blockAlignment : Nat := 16

end HybridHeap
