import HybridHeap.Heap

/-!
# Marking

Depth first marking with an explicit stack, so that long chains need no recursion. Marking a node
moves it from the live list to the reachable list. Nothing of the mutator runs while nodes are
marked, so marking is a function on heaps.

A weak entry adds its value to what is reachable once its key is: after everything reachable from
the roots is marked, the weak table is gone through again and again until no further entry is
resolved.
-/

namespace HybridHeap.Collector

/-- What is known while nodes are being marked. -/
structure Marking where
  heap : Heap
  /-- Marked nodes whose edges have not been visited yet, the one marked last first. -/
  stack : List NodeId
  /-- The number of nodes marked so far. -/
  count : Nat

/-- The traced edges of a node, in order, and what tracing them logs. A payload that has been
dropped or is mutably borrowed has none. -/
def traced (h : Heap) (n : NodeId) : List NodeId × Option (Level × String) :=
  if h.isDetached n then
    ([], some (.warning,
      s!"Tracing a detached {(h.kind n).typeName} node at {showNode n}, skipped"))
  else match h.payload? n with
    | none => ([], none)
    | some p => match p.borrowed, (h.kind n).cellName? with
      | true, some cell =>
        ([], some (.error,
          s!"{cell} is mutably borrowed while being traced, its edges are skipped"))
      | _, _ => (p.edges, none)

/-- Log what tracing a node has to say, if anything. -/
def logTrace (h : Heap) : Option (Level × String) → Heap
  | none => h
  | some (level, text) => h.log level text

namespace Marking

/-- Nothing is marked yet. -/
def start (h : Heap) : Marking := ⟨h, [], 0⟩

/-- Whether a node is marked. -/
def isMarked (m : Marking) (n : NodeId) : Bool := m.heap.readsMarked n

/-- Mark a node that is not marked yet, and leave its edges for later. -/
def visit (m : Marking) (n : NodeId) : Marking :=
  if m.isMarked n then m
  else
    { heap := (m.heap.setStatus n ((m.heap.status n).setMark m.heap.cycle)).modifyRings
        (·.pushBack reachableList n)
      stack := n :: m.stack
      count := m.count + 1 }

/-- Visit the edges of the node on top of the stack. -/
def step (m : Marking) : Marking :=
  match m.stack with
  | [] => m
  | n :: rest =>
    let (edges, message) := traced m.heap n
    edges.foldl visit { m with heap := logTrace m.heap message, stack := rest }

/-- Visit edges until the stack is empty. -/
def drain : Nat → Marking → Marking
  | 0, m => m
  | fuel + 1, m => if m.stack.isEmpty then m else drain fuel m.step

/-- Mark everything reachable from a node. A node enters the stack when it is marked, so there are
as many steps at most as there are nodes. -/
def reach (m : Marking) (n : NodeId) : Marking :=
  (m.visit n).drain (m.heap.nodes.size + 1)

/-- The weak entries that still have a key, with their slots and values. -/
def keyed (h : Heap) : List (Nat × NodeId × Option NodeId) :=
  h.roots.weak.entries.filterMap fun (slot, e) => e.key.map fun key => (slot, key, e.value)

/-- One pass over the weak entries: those whose key is marked are resolved and their values marked.
The result has the entries that are still not resolved. -/
def weakPass (m : Marking) :
    List (Nat × NodeId × Option NodeId) → Marking × List (Nat × NodeId × Option NodeId)
  | [] => (m, [])
  | (slot, key, value) :: rest =>
    if m.isMarked key then weakPass (value.elim m m.reach) rest
    else
      let (m, unresolved) := weakPass m rest
      (m, (slot, key, value) :: unresolved)

/-- Go through the weak entries until a pass resolves none. The result has the entries that are
never resolved. -/
def weakClosure : Nat → Marking → List (Nat × NodeId × Option NodeId) →
    Marking × List (Nat × NodeId × Option NodeId)
  | 0, m, entries => (m, entries)
  | fuel + 1, m, entries =>
    let (m, unresolved) := m.weakPass entries
    if unresolved.length = entries.length then (m, unresolved) else weakClosure fuel m unresolved

/-- Flip the cycle, which unmarks what is on the live list, and mark from every root and through the
weak table. The result has the slots of the weak entries whose key stays unmarked. -/
def run (h : Heap) : Marking × List Nat :=
  let h := h.flip
  let entries := keyed h
  let roots := h.rootNodes
  let m := roots.foldl reach (start h)
  let (m, unresolved) := m.weakClosure (entries.length + 1) entries
  (m, unresolved.map fun (slot, _, _) => slot)

end Marking

end HybridHeap.Collector
