import HybridHeap.Kind
import HybridHeap.Memory.BlockStore
import HybridHeap.Rings

/-!
# Mutator programs

What a mutator does to a heap, one step at a time. Destructors and finalizers are programs too: a
node is allocated with the program that runs when its payload is dropped, a weak reference is made
with the program that runs after its key has died. Nodes are named by their number, and everything
else that a mutator holds, a *handle*, by a name of its choice.
-/

namespace HybridHeap

/-- The name of a handle. -/
abbrev HandleName := String

/-- What a mutator gets back from an allocation. -/
inductive AllocForm where
  /-- Nothing but the node. -/
  | bare
  /-- An explicit root. -/
  | root (h : HandleName)
  /-- A stack root. -/
  | stackRoot (h : HandleName)
  /-- A counted edge. -/
  | edge (h : HandleName)

/-- One step of a mutator. -/
inductive Step where
  /-- Allocate a node with edges to `kids`, whose destructor runs `hook`. -/
  | allocate (form : AllocForm) (kind : Kind) (kids : List NodeId) (hook : Option (List Step))
  /-- Take a counted edge to a node. -/
  | edge (h : HandleName) (n : NodeId)
  /-- Take a counted edge whose payload type is erased. -/
  | erasedEdge (h : HandleName) (n : NodeId)
  /-- Take an explicit root. -/
  | root (h : HandleName) (n : NodeId)
  /-- Take a stack root. -/
  | stackRoot (h : HandleName) (n : NodeId)
  /-- Take an edge to the node that a root or stack root designates. -/
  | edgeFrom (h source : HandleName)
  /-- Take an explicit root on the target of an edge. -/
  | rootFrom (h source : HandleName)
  /-- Take a stack root on the target of an edge. -/
  | stackRootFrom (h source : HandleName)
  /-- Copy an edge or a root. -/
  | clone (h source : HandleName)
  /-- Erase the payload type of an edge. -/
  | erase (h : HandleName)
  /-- Take an edge to the target of an erased edge, if its payload is of the kind. -/
  | downcast (h source : HandleName) (kind : Kind)
  /-- Ask whether an erased edge leads to a payload of the kind. -/
  | isKind (h : HandleName) (kind : Kind)
  /-- Drop a handle. -/
  | drop (h : HandleName)
  /-- Lose a handle without dropping what it holds. -/
  | forget (h : HandleName)
  /-- Point a stack root at the target of an edge. -/
  | retarget (h target : HandleName)
  /-- Look at the payload behind a handle. -/
  | read (h : HandleName)
  /-- Ask for the count behind an edge. -/
  | refcount (h : HandleName)
  /-- Ask whether two handles of one sort lead to the same node. -/
  | same (a b : HandleName)
  /-- Store an edge to `target` in the payload of `n`. -/
  | link (n target : NodeId) (hidden front : Bool)
  /-- Take the edge at a place out of the payload of `n`. -/
  | unlink (n : NodeId) (place : Nat) (hidden : Bool)
  /-- Take all edges out of the payload of `n`. -/
  | clear (n : NodeId) (hidden : Bool)
  /-- Look at the payload of a node. -/
  | get (n : NodeId)
  /-- Run a program while the payload of `n` is rooted and mutably borrowed. -/
  | hold (n : NodeId) (body : List Step)
  /-- Look at the header of a node. -/
  | header (n : NodeId)
  /-- Ask for the mark bit of a node. -/
  | markBit (n : NodeId)
  /-- Visit the traced edges of a node. -/
  | trace (n : NodeId)
  /-- Queue a node for the next lite sweep. -/
  | makeMoribund (n : NodeId)
  /-- Take one edge to a node that has none and drop it twice. -/
  | underflow (n : NodeId)
  /-- Take edges to a node and forget them. -/
  | leak (n : NodeId) (count : Nat)
  /-- Show a handle. -/
  | showHandle (h : HandleName)
  /-- Show a node's pointer and header. -/
  | showNode (n : NodeId)
  /-- Show the collector. -/
  | showHeap
  /-- Run a lite sweep, then the pending finalizers. -/
  | lite
  /-- Run a full collection, then the pending finalizers. -/
  | full
  /-- Run the pending finalizers. -/
  | finalize
  /-- Take a guard that holds off collections. -/
  | inhibit (h : HandleName)
  | isInhibited
  | isCollecting
  | phase
  /-- Check the heap. -/
  | check
  /-- Check the heap and log what is wrong with it. -/
  | checkInvariants
  | stats
  /-- Enable or disable collections started by allocation. -/
  | enable (on : Bool)
  /-- Report full collections or not. -/
  | verbose (on : Bool)
  | setTrigger (bytes : Nat)
  | trigger
  | settings
  /-- Push a node on the protect stack. -/
  | protect (n : NodeId)
  /-- Pop entries off the protect stack. -/
  | unprotect (count : Nat)
  /-- Replace an entry of the protect stack. -/
  | reprotect (n : NodeId) (place : Nat)
  /-- Look at an entry of the protect stack. -/
  | protectedAt (place : Nat)
  | protectSize
  | restoreProtect (size : Nat)
  /-- Push a node on the node stack. -/
  | push (n : NodeId)
  | pop
  | top
  | stackSize
  | restoreStack (size : Nat)
  /-- Record the depths of the three stacks of roots. -/
  | snapshot (h : HandleName)
  /-- Unwind the three stacks of roots to a snapshot. -/
  | restore (h : HandleName)
  /-- Register a root source that designates the given nodes. -/
  | source (h : HandleName) (nodes : List NodeId) (pins : Bool)
  /-- Change what a root source designates. -/
  | designate (h : HandleName) (nodes : List NodeId)
  /-- Unregister whatever root source has the identifier of this one. -/
  | unregister (h : HandleName)
  /-- Make a weak reference. -/
  | weak (h : HandleName) (key : NodeId) (value : Option NodeId) (finalizer : Option (List Step))
  /-- Ask a weak reference for its key. -/
  | weakNode (h : HandleName)
  /-- Take an edge to the key if its payload is of the kind, and keep it under a name or drop it. -/
  | weakKey (h : HandleName) (kind : Kind) (keep : Option HandleName)
  /-- Take an edge to the value in the same way. -/
  | weakValue (h : HandleName) (kind : Kind) (keep : Option HandleName)
  /-- Ask whether the address at an offset from a node's storage looks like a node. -/
  | looks (n : NodeId) (offset : Int)
  /-- Ask whether an address looks like a node. -/
  | looksAt (address : Memory.Address)
  /-- Count the freed blocks written to since they were freed. -/
  | corrupted
  /-- Write a byte at an offset from a node's storage. -/
  | poke (n : NodeId) (offset : Int) (byte : UInt8)
  /-- Look at the allocator. -/
  | allocator
  /-- A step that cannot be understood. -/
  | senseless

/-- The steps of a mutator, a destructor or a finalizer. -/
abbrev Program := List Step

mutual

/-- The number of steps in a step: itself and those of the programs it comes with. -/
def Step.size : Step → Nat
  | .allocate _ _ _ hook => 1 + sizeIfAny hook
  | .hold _ body => 1 + Program.size body
  | .weak _ _ _ finalizer => 1 + sizeIfAny finalizer
  | _ => 1

/-- The number of steps in a program that may be missing. -/
def sizeIfAny : Option (List Step) → Nat
  | none => 0
  | some program => Program.size program

/-- The number of steps in a program, those of nested programs included. -/
def Program.size : List Step → Nat
  | [] => 0
  | step :: rest => Step.size step + Program.size rest

end

end HybridHeap
