import HybridHeap.Answer

/-!
# The synthetic workload

Object graphs shaped like what an interpreter produces: short-lived lists, reference cycles, a
long-lived tree, and weak references with finalizers. A workload says how much of each there is.
-/

namespace HybridHeap

/-- How much of everything is built. -/
structure Workload where
  /-- How often everything is built. -/
  rounds : Nat
  /-- Lists built and dropped per round. -/
  chains : Nat
  /-- Nodes per list. -/
  length : Nat
  /-- Cycles of two nodes dropped per round. -/
  cycles : Nat
  /-- Depth of the tree that a root holds for the length of a round. -/
  depth : Nat
  /-- Weak references made per round. -/
  weak : Nat

/-- What running a workload did. -/
structure Report where
  rounds : Nat
  nodesBuilt : Nat
  /-- Finalizers that ran. -/
  finalized : Nat
  /-- The sum of the tags in the tree of the last round. -/
  treeSum : Nat
  nodesLeft : Nat
  stats : Stats
  trigger : Nat

namespace Workload

/-- The number of nodes in a full binary tree. -/
def treeNodes (depth : Nat) : Nat := (1 <<< (depth + 1)) - 1

/-- The number of nodes that one round allocates. -/
def nodesPerRound (w : Workload) : Nat :=
  w.chains * w.length + 2 * w.cycles + treeNodes w.depth + 2 * w.weak

/-- The number of nodes that one round allocates, if it can be computed in words. The size of the
tree is computed by shifting a word, which must not shift its only bit out. -/
def nodesPerRound? (w : Workload) : Option Nat :=
  if w.depth + 1 < 64 then Word.fit? w.nodesPerRound else none

/-- The number of nodes that all rounds allocate, if it can be computed in words. -/
def nodesBuilt? (w : Workload) : Option Nat :=
  w.nodesPerRound?.bind fun n => Word.fit? (w.rounds * n)

end Workload

/-- A report as lines of text. -/
def Report.lines (r : Report) : List String :=
  [s!"rounds:            {r.rounds}",
   s!"nodes built:       {r.nodesBuilt}",
   s!"nodes left:        {r.nodesLeft}",
   s!"finalizers run:    {r.finalized}",
   s!"tree checksum:     {r.treeSum}",
   s!"full collections:  {r.stats.fullCollections}",
   s!"lite sweeps:       {r.stats.liteSweeps}",
   s!"marked:            {r.stats.totalMarked}",
   s!"detached:          {r.stats.totalDetached}",
   s!"reclaimed:         {r.stats.totalReclaimed}",
   s!"trigger level:     {r.trigger}"]

end HybridHeap
