/-!
# Rings of nodes

Circular doubly linked lists threaded through the nodes. Every list has a sentinel; a link that
points at itself is on no list. The table holds the two ends of every sentinel and of every node and
assumes nothing about them, so it can also hold lists that are damaged. `toList` walks a list
forwards from its sentinel and is the sequence that a list stands for.
-/

namespace HybridHeap

/-- The number of a node in the order in which allocations were attempted. -/
abbrev NodeId := Nat

/-- The number of a list in the order of creation. -/
abbrev ListId := Nat

/-- What a list is made of. -/
inductive Link where
  | sentinel (list : ListId)
  | node (n : NodeId)
  deriving DecidableEq

/-- The neighbours of a link. -/
structure Ends where
  prev : Link
  next : Link
  deriving DecidableEq

/-- The ends of all sentinels and all nodes. -/
structure Rings where
  sentinels : Array Ends
  nodes : Array Ends

namespace Rings

/-- No lists and no nodes. -/
def empty : Rings := ⟨#[], #[]⟩

/-- The ends of a link; one that is not in the table points at itself. -/
def ends (r : Rings) (x : Link) : Ends :=
  match x with
  | .sentinel l => r.sentinels[l]?.getD ⟨x, x⟩
  | .node n => r.nodes[n]?.getD ⟨x, x⟩

/-- The link after `x`. -/
def next (r : Rings) (x : Link) : Link := (r.ends x).next

/-- The link before `x`. -/
def prev (r : Rings) (x : Link) : Link := (r.ends x).prev

/-- Change the ends of a link. -/
def modifyEnds (r : Rings) (x : Link) (f : Ends → Ends) : Rings :=
  match x with
  | .sentinel l => { r with sentinels := r.sentinels.modify l f }
  | .node n => { r with nodes := r.nodes.modify n f }

/-- Make `y` the link after `x`. -/
def setNext (r : Rings) (x y : Link) : Rings := r.modifyEnds x fun e => { e with next := y }

/-- Make `y` the link before `x`. -/
def setPrev (r : Rings) (x y : Link) : Rings := r.modifyEnds x fun e => { e with prev := y }

/-- Make `x` point at itself. -/
def isolate (r : Rings) (x : Link) : Rings := r.modifyEnds x fun _ => ⟨x, x⟩

/-- Take a link off whatever list it is on. -/
def unlink (r : Rings) (x : Link) : Rings :=
  let prev := r.prev x
  let next := r.next x
  ((r.setNext prev next).setPrev next prev).isolate x

/-- Put a link before another one. -/
def insertBefore (r : Rings) (x anchor : Link) : Rings :=
  let prev := r.prev anchor
  (((r.setPrev x prev).setNext x anchor).setNext prev x).setPrev anchor x

/-- Both neighbours of a link point back at it. -/
def isConsistent (r : Rings) (x : Link) : Bool :=
  r.prev (r.next x) == x && r.next (r.prev x) == x

/-- A list without nodes, with its number. -/
def newList (r : Rings) : ListId × Rings :=
  let l := r.sentinels.size
  (l, { r with sentinels := r.sentinels.push ⟨.sentinel l, .sentinel l⟩ })

/-- The table with one more node, which is on no list. -/
def newNode (r : Rings) : Rings :=
  let n := r.nodes.size
  { r with nodes := r.nodes.push ⟨.node n, .node n⟩ }

/-- Whether nothing follows the sentinel. -/
def isEmpty (r : Rings) (l : ListId) : Bool := r.next (.sentinel l) == .sentinel l

/-- The first node of a list. -/
def front? (r : Rings) (l : ListId) : Option NodeId :=
  match r.next (.sentinel l) with
  | .node n => some n
  | .sentinel _ => none

/-- Move a node to the back of a list, taking it off any list it is on. -/
def pushBack (r : Rings) (l : ListId) (n : NodeId) : Rings :=
  (r.unlink (.node n)).insertBefore (.node n) (.sentinel l)

/-- Move every node of `from` to the back of `l`. -/
def spliceBack (r : Rings) (l source : ListId) : Rings :=
  if r.isEmpty source then r
  else
    let first := r.next (.sentinel source)
    let last := r.prev (.sentinel source)
    let tail := r.prev (.sentinel l)
    ((((r.setNext tail first).setPrev first tail).setNext last (.sentinel l)).setPrev
      (.sentinel l) last).isolate (.sentinel source)

/-- The nodes met by at most `fuel` steps from a link to the sentinel of `l`. -/
def walk (r : Rings) (l : ListId) : Nat → Link → List NodeId
  | 0, _ => []
  | fuel + 1, x =>
    if x = .sentinel l then []
    else match x with
      | .node n => n :: walk r l fuel (r.next x)
      | .sentinel _ => walk r l fuel (r.next x)

/-- The nodes of a list, walked forwards; a list whose links are sound has no node twice, so there
are as many steps at most as there are nodes. -/
def toList (r : Rings) (l : ListId) : List NodeId :=
  r.walk l (r.nodes.size + 1) (r.next (.sentinel l))

/-- Take the nodes off a list that goes away. -/
def clear (r : Rings) (l : ListId) : Rings :=
  (r.toList l).foldl (fun r n => r.unlink (.node n)) r

end Rings

end HybridHeap
