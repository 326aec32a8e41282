import HybridHeap.Answer

/-!
# The chronicle of a heap

What a heap keeps of its run besides its state: what has befallen its nodes, how the weak references
were made, what has become of their finalizers, what its collections have returned, and how it has
used its memory. It is there to be reasoned about. No operation depends on it: it is only written
to, and the numbers it gives out to finalizers are read nowhere else.
-/

namespace HybridHeap

/-- What befalls the payload and the storage of a node. -/
inductive Fate where
  /-- The destructor of the payload starts. -/
  | started
  /-- The destructor has returned. -/
  | returned
  /-- The destructor has failed. -/
  | unwound
  /-- The storage has gone back to the allocator. -/
  | freed
  deriving DecidableEq

/-- What has befallen nodes, latest first. -/
abbrev History := List (NodeId × Fate)

/-- How a weak reference was made. -/
structure Making where
  key : NodeId
  /-- Whether the payload of the key had been dropped by then. -/
  detached : Bool
  /-- What the collector was doing. -/
  phase : Phase
  /-- The number of the finalizer, if it was given one. -/
  finalizer : Option Nat
  deriving DecidableEq

/-- The queueing of a finalizer. -/
structure Queueing where
  finalizer : Nat
  /-- What had befallen nodes by then. -/
  history : History
  /-- What the collector was doing. -/
  phase : Phase

/-- What a run has done so far. Every list has what happened last in front. -/
structure Chronicle where
  /-- The weak references made, by the slots of their entries. -/
  makings : List (Nat × Making)
  /-- How many finalizers have been given to weak references. They are numbered from zero. -/
  given : Nat
  /-- The finalizers queued because a key died. -/
  queued : List Nat
  /-- How they were queued. -/
  queueings : List Queueing
  /-- The finalizers started. -/
  started : List Nat
  /-- The finalizers that went with a weak reference dropped before its key died. -/
  discarded : List Nat
  /-- The results of the lite sweeps that were not held off. -/
  sweeps : List Nat
  /-- The results of the full collections that were not asked for during another. -/
  collections : List CollectionResult
  /-- How often a node was to be given back that had no storage. -/
  misfrees : Nat
  /-- The most bytes that have been outstanding. -/
  peak : Nat
  /-- How many bytes have been written outside of storage that is out. -/
  trespasses : Nat

/-- How nodes read when a full collection has flipped the cycle and marked nothing yet. Nodes
without storage are left out. -/
structure Flip where
  /-- The nodes on the live list. -/
  live : List NodeId
  unmarked : List NodeId
  marked : List NodeId

namespace Chronicle

/-- Nothing has happened. -/
def empty : Chronicle := ⟨[], 0, [], [], [], [], [], [], 0, 0, 0⟩

/-- A weak reference has been made. -/
def make (c : Chronicle) (slot : Nat) (m : Making) : Chronicle :=
  { c with makings := (slot, m) :: c.makings, given := c.given + m.finalizer.toList.length }

/-- The finalizer of an expired entry has been queued, if it had one. -/
def queue (c : Chronicle) (finalizer : Option Nat) (history : History) (phase : Phase) :
    Chronicle :=
  { c with
    queued := finalizer.toList ++ c.queued
    queueings := finalizer.toList.map (⟨·, history, phase⟩) ++ c.queueings }

/-- A finalizer has been started. -/
def start (c : Chronicle) (finalizer : Nat) : Chronicle :=
  { c with started := finalizer :: c.started }

/-- The finalizer of a dropped entry has been discarded, if it still had one. -/
def discard (c : Chronicle) (finalizer : Option Nat) : Chronicle :=
  { c with discarded := finalizer.toList ++ c.discarded }

/-- A lite sweep has returned. -/
def sweep (c : Chronicle) (reclaimed : Nat) : Chronicle :=
  { c with sweeps := reclaimed :: c.sweeps }

/-- A full collection has returned. -/
def collect (c : Chronicle) (result : CollectionResult) : Chronicle :=
  { c with collections := result :: c.collections }

/-- A node is to be given back that has storage or has none. -/
def giveBack (c : Chronicle) (hasStorage : Bool) : Chronicle :=
  { c with misfrees := c.misfrees + if hasStorage then 0 else 1 }

/-- So many bytes are outstanding. -/
def reach (c : Chronicle) (bytes : Nat) : Chronicle := { c with peak := max c.peak bytes }

/-- A byte has been written outside of storage that is out. -/
def trespass (c : Chronicle) : Chronicle := { c with trespasses := c.trespasses + 1 }

/-- How the weak reference was made that has the slot. -/
def making? (c : Chronicle) (slot : Nat) : Option Making := c.makings.lookup slot

end Chronicle

end HybridHeap
