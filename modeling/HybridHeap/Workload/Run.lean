import HybridHeap.Collector.Check
import HybridHeap.Mutator.RootStacks
import HybridHeap.Mutator.WeakReferences
import HybridHeap.Workload.Basic

/-!
# Running a workload

Building the graphs of a workload on a heap, round by round. Whatever a builder still holds is
dropped if an allocation fails, the latest first, and the stacks of roots are unwound to where the
round began.
-/

namespace HybridHeap.Workload

open Collector Mutator

/-- The finalizers of a workload do nothing but run. -/
def runner : Runner := fun _ => pure []

/-- The place of a cell's first edge. -/
def car : Nat := 0

/-- The place of a cell's second edge. -/
def cdr : Nat := 1

/-- Allocate a cell with the given edges, which have been counted. -/
def cell (fuel : Nat) (first second : Option NodeId) (tag : Nat) : Act NodeId :=
  Collector.allocate runner fuel .cons
    { places := [first, second], hidden := [], tag, borrowed := false, hook := none }

/-- Allocate a cell and count an edge to it. -/
def cellEdge (fuel : Nat) (first second : Option NodeId) (tag : Nat) : Act NodeId := do
  let n ← cell fuel first second tag
  increment n
  return n

/-- Store an edge that has been counted in an empty place of a cell. -/
def fill (n : NodeId) (place : Nat) (target : NodeId) : Act Unit :=
  change n fun p => { p with places := p.places.set place (some target) }

/-- Put cells in front of a list whose head is on top of the stack of stack roots; the result is the
new head. -/
def extend (fuel index : Nat) (head : NodeId) : Nat → Nat → Act NodeId
  | 0, _ => return head
  | count + 1, tag => do
    let n ← onFailure (cellEdge fuel none none tag) (dropStackRoot head index)
    increment head
    fill n cdr head
    Act.update (·.modifyRoots fun r => { r with stack := r.stack.setIfInBounds index n })
    decrement n
    extend fuel index n count (tag + 1)

/-- Build a list of cells and count an edge to its head, if it has one. -/
def list (fuel : Nat) : Nat → Act (Option NodeId)
  | 0 => return none
  | length + 1 => do
    let first ← cell fuel none none 0
    let index ← newStackRoot first
    let head ← extend fuel index first length 1
    increment head
    dropStackRoot head index
    return some head

/-- The tag of a left child, if a word can hold it. -/
def leftTag (tag : Nat) : Act Nat :=
  match Word.fit? (2 * tag) with
  | some tag => return tag
  | none => throw .overflow

/-- Build a full binary tree and count an edge to its root. Subtrees stay on the node stack until
their parent holds them. -/
def tree (fuel : Nat) : Nat → Nat → Act NodeId
  | 0, tag => cellEdge fuel none none tag
  | depth + 1, tag => do
    let base ← Act.view (·.roots.nodeStack.size)
    ensuring
      (do
        let left ← tree fuel depth (← leftTag tag)
        modifyNodeStack (·.push left)
        let right ← onFailure (tree fuel depth (2 * tag + 1)) (decrement left)
        modifyNodeStack (·.push right)
        cellEdge fuel (some left) (some right) tag)
      (restoreStack base)

/-- The sum of the tags in a tree of at most the given depth. -/
def treeSum (h : Heap) : Nat → NodeId → Nat
  | 0, n => (h.payload? n).elim 0 Payload.tag
  | depth + 1, n => match h.payload? n with
    | none => 0
    | some p => match p.places with
      | [some left, some right] => p.tag + treeSum h depth left + treeSum h depth right
      | _ => p.tag

/-- Build lists and drop each of them at once. -/
def buildLists (fuel length : Nat) : Nat → Act Unit
  | 0 => return
  | count + 1 => do
    match ← list fuel length with
    | some head => decrement head
    | none => pure ()
    buildLists fuel length count

/-- Build a cycle of two cells that nothing else refers to. -/
def cycle (fuel tag : Nat) : Act Unit := do
  let a ← cell fuel none none tag
  let index ← newStackRoot a
  ensuring
    (do
      increment a
      let b ← cellEdge fuel (some a) none tag
      fill a car b)
    (dropStackRoot a index)

/-- Build cycles, with tags from `tag` on. -/
def buildCycles (fuel : Nat) : Nat → Nat → Act Unit
  | 0, _ => return
  | count + 1, tag => do
    cycle fuel tag
    buildCycles fuel count (tag + 1)

/-- Make a weak reference with a finalizer; the result is its slot. The key of every other one is
referred to by nothing but the value. -/
def weakPair (fuel tag : Nat) : Act Nat := do
  let key ← cell fuel none none tag
  let index ← newStackRoot key
  ensuring
    (do
      let value ← cellEdge fuel none none tag
      if tag % 2 = 1 then
        increment key
        fill value car key
      insertWeak key (some value) (some ("", [])))
    (dropStackRoot key index)

/-- Make weak references, with tags from `tag` on; the result has the slots of all of them, after
those made before. -/
def buildWeak (fuel : Nat) (slots : List Nat) : Nat → Nat → Act (List Nat)
  | 0, _ => return slots
  | count + 1, tag => do
    let slot ← onFailure (weakPair fuel tag) (slots.forM dropWeak)
    buildWeak fuel (slots ++ [slot]) count (tag + 1)

/-- Build everything once, collect, and sum up the tree. -/
def build (w : Workload) (fuel : Nat) : Act Nat := do
  let top ← tree fuel w.depth 1
  let root ← newRoot top
  decrement top
  let slots ← onFailure
    (do
      buildLists fuel w.length w.chains
      buildCycles fuel w.cycles 0
      buildWeak fuel [] w.weak 0)
    (dropRoot top root)
  let sum ← Act.view fun h => treeSum h w.depth top
  dropRoot top root
  discard <| forceFullCollection runner fuel
  slots.forM dropWeak
  return sum

/-- Build everything once and unwind the stacks of roots to where they were. -/
def round (w : Workload) (fuel : Nat) : Act Nat := do
  let snapshot ← Act.view (·.roots.snapshot)
  ensuring (w.build fuel) (restoreTo snapshot)

/-- Run the rounds that remain, checking the heap after each if asked to. A failed check ends them.
The result is the sum of the last tree. -/
def runRounds (w : Workload) (fuel : Nat) (check : Bool) : Nat → Nat → Act Nat
  | 0, sum => return sum
  | remaining + 1, _ => do
    let sum ← w.round fuel
    let isSound ← if check then checkInvariants else pure true
    if !isSound then
      let number := w.rounds - (remaining + 1)
      Act.update (·.log .error s!"Heap invariants broken after round {number}")
      return sum
    runRounds w fuel check remaining sum

/-- More turns than a collection can take: two for every node that can be allocated, and some more.
A tree deeper than 64 fails before it allocates any node. -/
def nodeBound (w : Workload) : Nat :=
  2 * (w.rounds * { w with depth := min w.depth 64 }.nodesPerRound) + 2

/-- The number of finalizers that ran. -/
def finalized (h : Heap) : Nat :=
  h.events.countP fun
    | .finalizer _ _ => true
    | _ => false

/-- Run a workload on a heap. -/
def run (w : Workload) (check : Bool) : Act Report := do
  let fuel := w.nodeBound
  let treeSum ← w.runRounds fuel check w.rounds 0
  discard <| forceFullCollection runner fuel
  discard <| runLiteSweep runner fuel
  match w.nodesBuilt? with
  | none => throw .overflow
  | some nodesBuilt =>
    Act.view fun h =>
      { rounds := w.rounds
        nodesBuilt
        finalized := finalized h
        treeSum
        nodesLeft := h.nodeCount
        stats := h.stats
        trigger := h.trigger }

/-- What a run of a workload left behind. -/
structure Execution where
  result : Except Failure Report
  /-- Whether the heap passed a check after the run. -/
  isSound : Bool
  heap : Heap

/-- Run a workload on a new heap and check the heap afterwards. -/
def execute (w : Workload) (config : Settings) (memory : Memory.Allocator) (check : Bool) :
    Execution :=
  let (result, heap) : Except Failure Report × Heap :=
    match w.run check (Heap.new config memory) with
    | .ok report heap => (.ok report, heap)
    | .error f heap => (.error f, heap)
  match checkInvariants heap with
  | .ok isSound heap => { result, isSound, heap }
  | .error _ heap => { result, isSound := false, heap }

end HybridHeap.Workload
