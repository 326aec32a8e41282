import HybridHeap.Failure
import HybridHeap.Program
import HybridHeap.Settings.Basic
import HybridHeap.Status

/-!
# Answers

What a mutator sees of a heap: the reply to each of its steps, the counters of the heap after it,
and the events on the way. A destructor or a finalizer that runs during a step answers its own
steps, and its answers are one event of the step it interrupted.
-/

namespace HybridHeap

/-- What a full collection did. -/
structure CollectionResult where
  /-- Nodes found reachable. -/
  marked : Nat
  /-- Unreachable nodes whose payload was dropped. -/
  detached : Nat
  /-- Nodes whose storage was given back by the closing lite sweep. -/
  reclaimed : Nat
  deriving DecidableEq

/-- Running totals of a collector. -/
structure Stats where
  fullCollections : Nat
  liteSweeps : Nat
  /-- Nodes marked by the latest full collection. -/
  lastMarked : Nat
  totalMarked : Nat
  totalDetached : Nat
  totalReclaimed : Nat
  bytesAfterLastCollection : Nat
  deriving DecidableEq

/-- The totals of a collector that has not done anything. -/
def Stats.zero : Stats := ⟨0, 0, 0, 0, 0, 0, 0⟩

/-- What a check of a sound heap saw. -/
structure CheckReport where
  live : Nat
  moribund : Nat
  /-- Nodes whose count has always been zero. -/
  virgins : Nat
  deriving DecidableEq

/-- The counters of a heap. -/
structure Summary where
  nodes : Nat
  moribund : Nat
  bytes : Nat
  liteSweeps : Nat
  fullCollections : Nat
  pendingFinalizers : Nat
  deriving DecidableEq

/-- How much a log message matters. -/
inductive Level where
  | error
  | warning
  | info
  deriving DecidableEq

/-- What the header of a node says. -/
structure HeaderView where
  kind : Kind
  status : Status

/-- What an allocator says of itself. -/
structure AllocatorView where
  /-- The number of blocks held back and their bytes, if freed blocks are held back. -/
  held : Option (Nat × Nat)
  /-- The number of blocks not given back. -/
  blocks : Nat
  text : String

mutual

/-- What a step gives back. -/
inductive Reply where
  | nothing
  | node (n : NodeId)
  | nodeOrNone (n : Option NodeId)
  | nodes (ns : List NodeId)
  | number (n : Nat)
  | flag (b : Bool)
  | text (s : String)
  | texts (a b : String)
  /-- The edges of a payload: its places, empty or not, and its hidden edges. -/
  | payload (n : NodeId) (places : List (Option NodeId)) (hidden : List NodeId)
  | header (view : HeaderView)
  /-- The key of a weak reference that has not expired. -/
  | key (n : Option NodeId)
  | collection (result : CollectionResult)
  | report (r : CheckReport)
  | violation (v : Violation)
  | stats (s : Stats) (trigger : Nat)
  | settings (s : Settings)
  | phase (p : Phase)
  | allocator (view : AllocatorView)
  /-- The answers to the steps of a program that the step ran. -/
  | answers (as : List Answer)
  | failure (f : Failure)

/-- Something that happened during a step. -/
inductive Event where
  /-- The payload of a node starts being dropped. -/
  | dropped (n : NodeId)
  /-- The storage of a node went back to the allocator. -/
  | freed (n : NodeId)
  | logged (level : Level) (text : String)
  /-- The destructor of a payload ran. -/
  | destructor (n : NodeId) (answers : List Answer)
  /-- A finalizer ran. -/
  | finalizer (name : HandleName) (answers : List Answer)

/-- The reply to a step, the counters after it, and the events on the way, in order. -/
inductive Answer where
  | mk (reply : Reply) (summary : Summary) (events : List Event)

end

end HybridHeap
