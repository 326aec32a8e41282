import HybridHeap.Heap

/-!
# Checking a heap

A walk over the live list and the moribund queue that verifies that they agree with each other and
with the node count. It is meant for heaps that may be damaged, so it trusts no link: it visits at
most one node more than there should be, and looks at every node's neighbours.
-/

namespace HybridHeap.Collector

/-- What the walk over the live list has seen. -/
structure Walked where
  live : Nat
  virgins : Nat
  /-- Nodes whose moribund flag is set. -/
  flagged : Nat

/-- Walk the live list from a link on, with so many steps left. The number of nodes found may not
exceed the number recorded, so one step more than that settles it. -/
def walkLive (h : Heap) : Nat → Link → Walked → Except Violation Walked
  | 0, _, seen => .ok seen
  | fuel + 1, x, seen =>
    if x = .sentinel liveList then .ok seen
    else
      let live := seen.live + 1
      if h.nodeCount < live then .error (.nodeCountMismatch h.nodeCount live)
      else match x with
        | .sentinel l => .error (.brokenLink l)
        | .node n =>
          if !h.rings.isConsistent x then .error (.brokenLink n)
          else
            let status := h.status n
            walkLive h fuel (h.rings.next x)
              { live
                virgins := seen.virgins + if status.contains .referenced then 0 else 1
                flagged := seen.flagged + if status.contains .moribund then 1 else 0 }

/-- Every queued node has its flag set and is queued once; the nodes met before are given. -/
def walkMoribund (h : Heap) : List NodeId → List NodeId → Except Violation Unit
  | _, [] => .ok ()
  | met, n :: rest =>
    if !(h.status n).contains .moribund then .error (.moribundBitClear n)
    else if met.contains n then .error (.duplicateMoribund n)
    else walkMoribund h (n :: met) rest

/-- Check a heap. Nodes that have never been referenced are counted but are no violation. -/
def check (h : Heap) : Except Violation CheckReport := do
  if h.phase ≠ .idle then throw (.collectionInProgress h.phase)
  if !h.rings.isEmpty reachableList then throw .reachableNotEmpty
  let seen ← walkLive h (h.nodeCount + 2) (h.rings.next (.sentinel liveList)) ⟨0, 0, 0⟩
  walkMoribund h [] h.moribund.reverse
  let listed := h.moribund.length
  if seen.flagged ≠ listed then throw (.moribundCountMismatch seen.flagged listed)
  if seen.live ≠ h.nodeCount then throw (.nodeCountMismatch h.nodeCount seen.live)
  return { live := seen.live, moribund := listed, virgins := seen.virgins }

/-- The heap after it has been checked: nodes that were never referenced are worth a warning. -/
def noteVirgins (h : Heap) : Except Violation CheckReport → Heap
  | .ok r =>
    if r.virgins = 0 then h
    else h.log .warning
      (s!"{r.virgins} nodes have never been referenced; " ++
        "they will only be reclaimed by a full collection")
  | .error _ => h

/-- Check the heap. -/
def checked : Act (Except Violation CheckReport) := fun h =>
  let r := check h
  .ok r (noteVirgins h r)

/-- Check the heap and log what is wrong with it. -/
def checkInvariants : Act Bool := do
  match ← checked with
  | .ok _ => return true
  | .error v =>
    Act.update (·.log .error s!"Heap check failed: {v.message showNode}")
    return false

end HybridHeap.Collector
