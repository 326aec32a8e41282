import HybridHeap.Mutator.Run

/-!
# One collector per thread

The collector that a thread shares with everything it calls. It is made once, with the settings
given first; settings given later are ignored with a warning. Every thread has its own.
-/

namespace HybridHeap

/-- The collector of a thread, once it has been made. -/
structure PerThread where
  heap : Option Heap

/-- What a thread can ask of its collector. -/
inductive ThreadRequest where
  /-- Ask whether there is a collector. -/
  | isReady
  /-- Make the collector, unless there is one. -/
  | create (config : Settings)
  /-- Look at the collector. -/
  | current
  /-- Allocate a node that holds nothing. -/
  | allocate
  /-- Run a full collection. -/
  | collect
  /-- Ask whether another thread that did nothing yet has a collector. -/
  | isReadyElsewhere
  /-- A request that cannot be understood. -/
  | senseless

/-- What a request gives back. -/
inductive ThreadReply where
  | flag (b : Bool)
  /-- The settings of the collector, and whether it was made just now. -/
  | collector (isNew : Bool) (config : Settings)
  | nodes (count : Nat)
  | number (n : Nat)
  | failure (f : Failure)

namespace PerThread

/-- A thread that did nothing yet. -/
def fresh : PerThread := ⟨none⟩

/-- What is said when a collector is made a second time. -/
def alreadyInitializedText : String := "Collector already initialized, ignoring new configuration"

/-- Run an operation on the collector; `none` if there is none. The events are those of the
operation. -/
def act (t : PerThread) (body : Act ThreadReply) :
    PerThread × ThreadReply × List Event :=
  match t.heap with
  | none => (t, .failure .refused, [])
  | some heap => match body { heap with events := [] } with
    | .ok reply heap => (⟨some heap⟩, reply, heap.events.reverse)
    | .error f heap => (⟨some heap⟩, .failure f, heap.events.reverse)

/-- Make the collector, unless there is one. -/
def create (t : PerThread) (config : Settings) : PerThread × ThreadReply × List Event :=
  match t.heap with
  | some heap =>
    (t, .collector false heap.config, [.logged .warning alreadyInitializedText])
  | none =>
    let heap := Heap.new config (Memory.Allocator.new none config.quarantine)
    (⟨some heap⟩, .collector true heap.config, [])

/-- Serve a request. So many nodes at most have been allocated. -/
def serve (fuel : Nat) (t : PerThread) : ThreadRequest → PerThread × ThreadReply × List Event
  | .isReady => (t, .flag t.heap.isSome, [])
  | .create config => t.create config
  | .current => t.act (.nodes <$> Act.view (·.nodeCount))
  | .allocate => t.act do
    discard <| Mutator.allocate (fun _ => pure []) fuel .bare .empty [] none
    .number <$> Act.view Heap.bytes
  | .collect => t.act do
    let result ← Collector.forceFullCollection (fun _ => pure []) fuel
    return .number result.reclaimed
  | .isReadyElsewhere => (t, .flag fresh.heap.isSome, [])
  | .senseless => (t, .failure .refused, [])

/-- Serve requests in order, given a bound on the nodes allocated. -/
def serveAll (fuel : Nat) (t : PerThread) : List ThreadRequest → List (ThreadReply × List Event)
  | [] => []
  | request :: rest =>
    let (t, reply, events) := t.serve fuel request
    (reply, events) :: serveAll fuel t rest

/-- Serve the requests of a thread that did nothing yet. -/
def serveThread (requests : List ThreadRequest) : List (ThreadReply × List Event) :=
  fresh.serveAll (requests.length + 2) requests

end PerThread

end HybridHeap
