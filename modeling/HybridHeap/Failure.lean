import HybridHeap.Kind
import HybridHeap.Rings

/-!
# Failures

The ways in which an operation on a heap can fail, each as a cause with one wording. A fatal error
is an inconsistency or a misuse that the collector cannot recover from; it unwinds to whoever asked
for the operation. A node is written as its number after a `#`.
-/

namespace HybridHeap

/-- What the collector is doing. -/
inductive Phase where
  | idle
  | marking
  | sweeping
  deriving DecidableEq

/-- The phase as it is shown. -/
def Phase.toText : Phase → String
  | idle => "Idle"
  | marking => "Marking"
  | sweeping => "Sweeping"

/-- The depths of the three stacks of roots, to unwind to after a non-local exit. -/
structure RootSnapshot where
  stackRoots : Nat
  protectStack : Nat
  nodeStack : Nat
  deriving DecidableEq

/-- The snapshot as it is shown. -/
def RootSnapshot.toText (s : RootSnapshot) : String :=
  Text.record "RootSnapshot"
    [("stack_roots", toString s.stackRoots), ("protect", toString s.protectStack),
     ("node_stack", toString s.nodeStack)]

/-- How a node is written. -/
def showNode (n : NodeId) : String := s!"#{n}"

/-- How a place is written at which the storage of a node may start. -/
def showOwner : Option NodeId → String
  | some n => showNode n
  | none => "#?"

/-- The causes of fatal errors. -/
inductive Fatal where
  /-- A payload needs more alignment than blocks have. -/
  | misaligned (kind : Kind)
  /-- A node says that it is queued but is not. -/
  | notQueued (kind : Kind) (n : NodeId)
  /-- A reference was counted down that had not been counted up. -/
  | underflow (kind : Kind) (n : NodeId)
  /-- A full collection was asked for while collections are inhibited. -/
  | inhibited
  /-- A payload was used after it had been dropped. -/
  | detachedUse (kind : Kind) (n : NodeId)
  /-- Something wrote around a block; the node whose storage it is, if there is one. -/
  | redzoneDamaged (bytes : Nat) (owner : Option NodeId)
  | unprotectTooMany (count depth : Nat)
  | reprotectBeyond (place depth : Nat)
  | growProtect (depth size : Nat)
  | growNodeStack (depth size : Nat)
  /-- The stacks of roots are shallower than the snapshot to restore. -/
  | restoreShallower (wanted current : RootSnapshot)
  /-- A stack root was dropped that is not the topmost. -/
  | stackRootOrder (index depth : Nat)
  /-- A stack root was used after its entry had been discarded. -/
  | stackRootUnwound (index : Nat) (kind : Kind)
  deriving DecidableEq

/-- The wording of a fatal error. -/
def Fatal.message : Fatal → String
  | misaligned kind =>
    s!"{kind.typeName} needs {kind.alignment}-byte alignment, " ++
      s!"the allocator only guarantees {blockAlignment}"
  | notQueued kind n =>
    s!"{kind.typeName} node at {showNode n} has its moribund bit set " ++
      "but is not on the moribund list"
  | underflow kind n => s!"refcount underflow on {kind.typeName} node at {showNode n}"
  | inhibited => "a full collection must not be requested while collection is inhibited"
  | detachedUse kind n =>
    s!"use of {kind.typeName} node at {showNode n} after a sweep detached it; " ++
      "it was reachable only through an unrooted edge"
  | redzoneDamaged bytes owner =>
    s!"redzone damaged around {bytes} byte block at {showOwner owner}: " ++
      "something wrote out of bounds"
  | unprotectTooMany count depth => s!"unprotect({count}) with only {depth} protected nodes"
  | reprotectBeyond place depth => s!"reprotect at index {place} with only {depth} protected nodes"
  | growProtect depth size => s!"cannot grow the protect stack from {depth} to {size} entries"
  | growNodeStack depth size => s!"cannot grow the node stack from {depth} to {size} entries"
  | restoreShallower wanted current =>
    s!"cannot restore roots to {wanted.toText}, registries are shallower ({current.toText})"
  | stackRootOrder index depth =>
    s!"stack root {index} released out of order, {depth} roots registered"
  | stackRootUnwound index kind =>
    s!"stack root {index} of {kind.typeName} used after the root stack was unwound past it"

/-- What is said when a block is given back that is not there. -/
def unknownFreeText (bytes : Nat) (owner : Option NodeId) : String :=
  s!"free of unknown block {showOwner owner} ({bytes} bytes)"

/-- What is said when a block is marked that is not there. -/
def unknownMarkText (owner : Option NodeId) : String :=
  s!"set_mark on unknown block {showOwner owner}"

/-- Why an operation did not return. -/
inductive Failure where
  | fatal (cause : Fatal)
  /-- The allocator could not satisfy a request for so many bytes. -/
  | outOfMemory (bytes : Nat)
  /-- A number did not fit in a word. -/
  | overflow
  /-- The payload's cell is mutably borrowed. -/
  | borrowed
  /-- The mutator's step makes no sense here. -/
  | refused
  /-- The evaluator ran out of fuel; not an outcome of the heap. -/
  | exhausted
  deriving DecidableEq

/-- Whether nothing can be said of the heap after the failure: it is a fatal error, or no outcome
at all. -/
def Failure.isFinal : Failure → Bool
  | fatal _ | exhausted => true
  | outOfMemory _ | overflow | borrowed | refused => false

/-- What an operation fails with that failed, and whose cleanup failed too. Running out of fuel
counts before everything else, because it is no outcome. -/
def Failure.andThen (e cleanup : Failure) : Failure :=
  if e.isFinal && cleanup != .exhausted then e else cleanup

/-- What is said of a request that the allocator could not satisfy. -/
def outOfMemoryText (bytes : Nat) : String :=
  s!"allocator could not satisfy a request for {bytes} bytes"

/-- An inconsistency found by checking a heap. -/
inductive Violation where
  | nodeCountMismatch (recorded found : Nat)
  | brokenLink (place : Nat)
  | moribundBitClear (place : Nat)
  | duplicateMoribund (place : Nat)
  | moribundCountMismatch (flagged listed : Nat)
  | reachableNotEmpty
  | collectionInProgress (phase : Phase)
  deriving DecidableEq

/-- The wording of a violation, given how the place of a node is written. -/
def Violation.message (showPlace : Nat → String) : Violation → String
  | nodeCountMismatch recorded found =>
    s!"recorded number of nodes ({recorded}) inconsistent " ++
      s!"with nodes found on the live list ({found})"
  | brokenLink place => s!"live list linkage broken at node {showPlace place}"
  | moribundBitClear place =>
    s!"node {showPlace place} is on the moribund list without its moribund bit set"
  | duplicateMoribund place =>
    s!"node {showPlace place} appears more than once on the moribund list"
  | moribundCountMismatch flagged listed =>
    s!"{flagged} live nodes carry the moribund bit but the moribund list holds {listed}"
  | reachableNotEmpty => "reachable list is not empty outside a collection"
  | collectionInProgress phase =>
    s!"invariants cannot be checked while the collector is {phase.toText}"

/-- How an address is written. -/
def showAddress (a : Nat) : String := "0x" ++ Text.hex a

end HybridHeap
