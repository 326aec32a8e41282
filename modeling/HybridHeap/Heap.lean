import HybridHeap.Chronicle
import HybridHeap.Memory.Allocator
import HybridHeap.SlotTable

/-!
# The heap

The state of a collector together with everything a mutator holds: the nodes with their payloads,
the lists and registries that describe them, the trigger policy, the mutator's handles, and the
events since the current step began. An `Act` is an operation on a heap that may fail; when it fails
the heap is left as the failure found it, and `ensuring` is how guards are released all the same.
-/

namespace HybridHeap

/-- What a node holds. -/
structure Payload where
  /-- The traced edges by place; a place may be empty. -/
  places : List (Option NodeId)
  /-- The edges that tracing does not visit. -/
  hidden : List NodeId
  /-- A number the payload carries besides its edges. -/
  tag : Nat
  /-- Whether the cell that keeps the traced edges is mutably borrowed. -/
  borrowed : Bool
  /-- What the payload's destructor does before the edges are released. -/
  hook : Option Program

/-- The traced edges of a payload, in order. -/
def Payload.edges (p : Payload) : List NodeId := p.places.filterMap id

/-- All counted edges of a payload in the order in which they are released. -/
def Payload.allEdges (p : Payload) : List NodeId := p.edges ++ p.hidden

/-- What has become of the storage of a node. -/
inductive Stage where
  /-- The allocation is under way, or it failed. -/
  | unborn
  | allocated
  /-- The storage went back, or giving it back failed. -/
  | freed
  deriving DecidableEq

/-- A node, from the attempt to allocate it on. -/
structure Node where
  kind : Kind
  status : Status
  /-- The payload until it is dropped. -/
  payload : Option Payload
  /-- The block of its storage, once it has one. -/
  block : Memory.BlockId
  stage : Stage

/-- A destructor run on behalf of a weak reference after its key died. -/
structure Finalizer where
  /-- How many finalizers had been given before. -/
  number : Nat
  /-- The name of the weak reference. -/
  name : HandleName
  program : Program

/-- An entry of the weak table. -/
structure WeakEntry where
  /-- The key, until it is found dead. -/
  key : Option NodeId
  /-- A counted edge, released when the key dies. -/
  value : Option NodeId
  finalizer : Option Finalizer

/-- The number of the finalizer of an entry, if it still has one. -/
def WeakEntry.number? (e : WeakEntry) : Option Nat := e.finalizer.map Finalizer.number

/-- The number of a root source in the order of registration. -/
abbrev SourceId := Nat

/-- A provider of roots that the collector does not own. -/
structure RootSource where
  /-- The nodes it designates. -/
  nodes : List NodeId
  /-- Whether they must be pinned during a lite sweep. -/
  pins : Bool

/-- Everything that marking starts from, and the weak table. -/
structure Roots where
  /-- Explicit roots; each also holds a count. -/
  explicit : SlotTable NodeId
  /-- Stack roots, released in reverse order. -/
  stack : Array NodeId
  /-- The protect stack, addressed by depth. -/
  protect : Array NodeId
  /-- The operand stack of an interpreter. -/
  nodeStack : Array NodeId
  weak : SlotTable WeakEntry
  /-- The registered root sources by identifier. -/
  external : Array (Option SourceId)

/-- What a mutator holds under a name. -/
inductive Handle where
  /-- A counted edge whose payload type is known. -/
  | edge (n : NodeId)
  /-- A counted edge whose payload type is erased. -/
  | erased (n : NodeId)
  /-- An explicit root with its slot. -/
  | root (n : NodeId) (slot : Nat)
  /-- A stack root with its index. -/
  | stackRoot (n : NodeId) (index : Nat)
  /-- A weak reference with its slot. -/
  | weak (slot : Nat)
  /-- A guard that holds off collections. -/
  | inhibitor
  | snapshot (s : RootSnapshot)
  /-- A root source, and the identifier under which it was registered. -/
  | source (s : SourceId) (identifier : Nat)

/-- A collector and its mutator. -/
structure Heap where
  config : Settings
  memory : Memory.Allocator
  nodes : Array Node
  /-- The live list and the reachable list. -/
  rings : Rings
  /-- Nodes queued for the next lite sweep, the one queued last first. -/
  moribund : List NodeId
  /-- Nodes allocated and not yet reclaimed. -/
  nodeCount : Nat
  /-- The guards that hold off collections, the collector's own included. -/
  inhibitors : Nat
  /-- What the mark bit of a marked node is. -/
  cycle : Bool
  /-- The heap size above which a lite sweep is due. -/
  liteThreshold : Nat
  phase : Phase
  roots : Roots
  /-- All root sources ever registered. -/
  sources : Array RootSource
  /-- The heap size above which allocation asks for a full collection. -/
  trigger : Nat
  /-- Whether allocation starts full collections. -/
  enabled : Bool
  /-- Whether full collections are reported. -/
  verbose : Bool
  /-- Whether a full collection is under way. -/
  collecting : Bool
  stats : Stats
  /-- Finalizers waiting to be run, the one queued first first. -/
  pending : List Finalizer
  /-- The headroom earned at the given full collection; it depends on the clock. -/
  headroom : Nat → Nat
  /-- What the mutator holds. -/
  handles : List (HandleName × Handle)
  /-- What the mutator has lost without dropping it, and how many of it. -/
  lost : List (Handle × Nat)
  /-- The nodes whose destructor is running, innermost first. -/
  dying : List NodeId
  /-- What happened since the current step began, latest first. -/
  events : List Event
  /-- What has befallen nodes so far, latest first: a record of the run that no operation reads. -/
  history : History
  /-- What the run has done so far: a record of the run that no operation reads. -/
  chronicle : Chronicle
  /-- How nodes have read at each flip of the cycle, latest first: a record of the run that no
  operation reads. -/
  flips : List Flip

/-- The list of attached nodes. -/
def liveList : ListId := 0

/-- The list of nodes marked so far by a full collection. -/
def reachableList : ListId := 1

/-- An operation on a heap. -/
abbrev Act := EStateM Failure Heap

/-- How a heap runs a destructor or a finalizer. -/
abbrev Runner := Program → Act (List Answer)

/-- Run `cleanup` after `body` only if it failed. A final failure of `body` counts first. -/
def onFailure {α : Type} (body : Act α) (cleanup : Act Unit) : Act α := fun h =>
  match body h with
  | .ok a h => .ok a h
  | .error e h => match cleanup h with
    | .ok _ h => .error e h
    | .error e' h => .error (e.andThen e') h

/-- Run `cleanup` after `body`, whether it returned or failed. A final failure of `body` counts
first. -/
def ensuring {α : Type} (body : Act α) (cleanup : Act Unit) : Act α := fun h =>
  match body h with
  | .ok a h => match cleanup h with
    | .ok _ h => .ok a h
    | .error e h => .error e h
  | .error e h => match cleanup h with
    | .ok _ h => .error e h
    | .error e' h => .error (e.andThen e') h

namespace Roots

/-- No roots at all. -/
def empty : Roots := ⟨.empty, #[], #[], #[], .empty, #[]⟩

/-- The depths of the three stacks. -/
def snapshot (r : Roots) : RootSnapshot := ⟨r.stack.size, r.protect.size, r.nodeStack.size⟩

/-- The number of weak entries that still have a key. -/
def keyedEntries (r : Roots) : Nat := r.weak.toList.countP fun e => e.key.isSome

/-- How many roots there are of each sort, as it is shown. -/
def toText (r : Roots) : String :=
  let counts := [("explicit roots", r.explicit.size), ("stack roots", r.stack.size),
    ("protect stack", r.protect.size), ("node stack", r.nodeStack.size),
    ("weak entries", r.keyedEntries), ("external sources", r.external.countP Option.isSome)]
  "[" ++ ", ".intercalate (counts.map fun (name, count) => s!"{name}: {count}") ++ "]"

end Roots

namespace Heap

/-- A collector over the given memory, with a mutator that holds nothing. -/
def new (config : Settings) (memory : Memory.Allocator) : Heap :=
  { config
    memory := memory.assistOnly
    nodes := #[]
    rings := (Rings.empty.newList.2).newList.2
    moribund := []
    nodeCount := 0
    inhibitors := 0
    cycle := false
    liteThreshold := config.margin
    phase := .idle
    roots := .empty
    sources := #[]
    trigger := max config.trigger config.minTrigger
    enabled := true
    verbose := config.verbose
    collecting := false
    stats := .zero
    pending := []
    headroom := fun _ => 0
    handles := []
    lost := []
    dying := []
    events := []
    history := []
    chronicle := .empty
    flips := [] }

/-- The node of that number; there is none before its allocation is attempted. -/
def node? (h : Heap) (n : NodeId) : Option Node := h.nodes[n]?

/-- The status of a node. -/
def status (h : Heap) (n : NodeId) : Status := (h.nodes[n]?.map Node.status).getD (.fresh false)

/-- The kind of a node. -/
def kind (h : Heap) (n : NodeId) : Kind := (h.nodes[n]?.map Node.kind).getD .empty

/-- The payload of a node, unless it has been dropped. -/
def payload? (h : Heap) (n : NodeId) : Option Payload := h.nodes[n]?.bind Node.payload

/-- Whether the payload of a node has been dropped by a sweep. -/
def isDetached (h : Heap) (n : NodeId) : Bool := (h.status n).contains .detached

/-- Whether the node has storage. -/
def isAllocated (h : Heap) (n : NodeId) : Bool :=
  (h.nodes[n]?.map Node.stage).getD .unborn == .allocated

/-- Whether a node reads as marked. -/
def readsMarked (h : Heap) (n : NodeId) : Bool := (h.status n).contains .mark == h.cycle

/-- What has befallen the payload and the storage of a node, in order. -/
def fates (h : Heap) (n : NodeId) : List Fate :=
  ((h.history.filter fun x => x.1 == n).map Prod.snd).reverse

/-- The bytes outstanding. -/
def bytes (h : Heap) : Nat := h.memory.bytesAllocated

/-- Whether collections are held off. -/
def isInhibited (h : Heap) : Bool := h.inhibitors != 0

/-- The heap after an event. -/
def emit (h : Heap) (e : Event) : Heap := { h with events := e :: h.events }

/-- The heap after something has befallen a node. -/
def befall (h : Heap) (n : NodeId) (f : Fate) : Heap := { h with history := (n, f) :: h.history }

/-- The heap after a log message. -/
def log (h : Heap) (level : Level) (text : String) : Heap := h.emit (.logged level text)

/-- The heap with one node changed. -/
def modifyNode (h : Heap) (n : NodeId) (f : Node → Node) : Heap :=
  { h with nodes := h.nodes.modify n f }

/-- The heap with the status of one node replaced. -/
def setStatus (h : Heap) (n : NodeId) (s : Status) : Heap :=
  h.modifyNode n fun node => { node with status := s }

/-- The heap with the payload of one node changed. -/
def modifyPayload (h : Heap) (n : NodeId) (f : Payload → Payload) : Heap :=
  h.modifyNode n fun node => { node with payload := node.payload.map f }

/-- The heap with its links changed. -/
def modifyRings (h : Heap) (f : Rings → Rings) : Heap := { h with rings := f h.rings }

/-- The heap with its roots changed. -/
def modifyRoots (h : Heap) (f : Roots → Roots) : Heap := { h with roots := f h.roots }

/-- The heap with its memory changed. -/
def modifyMemory (h : Heap) (f : Memory.Allocator → Memory.Allocator) : Heap :=
  { h with memory := f h.memory }

/-- The heap with its totals changed. -/
def modifyStats (h : Heap) (f : Stats → Stats) : Heap := { h with stats := f h.stats }

/-- The heap with more in its chronicle. -/
def modifyChronicle (h : Heap) (f : Chronicle → Chronicle) : Heap :=
  { h with chronicle := f h.chronicle }

/-- The heap after the finalizer at the head of the queue has been taken up. -/
def takeUp (h : Heap) (f : Finalizer) : Heap :=
  { h with pending := h.pending.tail }.modifyChronicle (·.start f.number)

/-- What a root source designates now, leaving out nodes that are not there. -/
def designated (h : Heap) (s : SourceId) : List NodeId :=
  ((h.sources[s]?.map RootSource.nodes).getD []).filter h.isAllocated

/-- The root source registered under an identifier. -/
def registered (h : Heap) (identifier : Nat) : Option SourceId :=
  h.roots.external[identifier]?.join

/-- The nodes designated by registered root sources for which `p` holds, by identifier. -/
def externalRoots (h : Heap) (p : RootSource → Bool) : List NodeId :=
  (h.roots.external.toList.filterMap id).flatMap fun s =>
    if h.sources[s]?.any p then h.designated s else []

/-- The nodes designated by the three stacks, in order. -/
def stackedRoots (h : Heap) : List NodeId :=
  h.roots.stack.toList ++ h.roots.protect.toList ++ h.roots.nodeStack.toList

/-- Every root, counted or not, in the order in which marking visits them. -/
def rootNodes (h : Heap) : List NodeId :=
  h.roots.explicit.toList ++ h.stackedRoots ++ h.externalRoots fun _ => true

/-- The uncounted roots that a lite sweep has to pin, with multiplicity. -/
def pinned (h : Heap) : List NodeId := h.stackedRoots ++ h.externalRoots RootSource.pins

/-- How the nodes read now. -/
def reading (h : Heap) : Flip :=
  let stored := (List.range h.nodes.size).filter h.isAllocated
  { live := h.rings.toList liveList
    unmarked := stored.filter fun n => !h.readsMarked n
    marked := stored.filter h.readsMarked }

/-- The heap with the cycle flipped, and how its nodes read now on record. -/
def flip (h : Heap) : Heap :=
  let h := { h with cycle := !h.cycle }
  { h with flips := h.reading :: h.flips }

/-- The counters of the heap. -/
def summary (h : Heap) : Summary :=
  { nodes := h.nodeCount
    moribund := h.moribund.length
    bytes := h.bytes
    liteSweeps := h.stats.liteSweeps
    fullCollections := h.stats.fullCollections
    pendingFinalizers := h.pending.length }

/-- The manager of full collections as it is shown. -/
def managerText (h : Heap) : String :=
  Text.record "GcManager"
    [("trigger_level", toString h.trigger), ("enabled", Text.truth h.enabled),
     ("collecting", Text.truth h.collecting),
     ("pending_finalizers", Text.quoted s!"[{h.pending.length} finalizers queued]")]

/-- The collector as it is shown. -/
def toText (h : Heap) : String :=
  Text.record "Collector"
    [("nodes", toString h.nodeCount), ("moribund", toString h.moribund.length),
     ("bytes", toString h.bytes), ("phase", h.phase.toText),
     ("roots", Text.quoted h.roots.toText), ("manager", h.managerText)]

/-- The header of a node as it is shown. -/
def headerText (h : Heap) (n : NodeId) : String :=
  Text.record "GcHeader"
    [("type", Text.quoted (h.kind n).typeName), ("status", (h.status n).toText)]

end Heap

namespace Act

/-- Look at the heap. -/
@[inline]
def view {α : Type} (f : Heap → α) : Act α := fun h => .ok (f h) h

/-- Change the heap. -/
@[inline]
def update (f : Heap → Heap) : Act Unit := fun h => .ok () (f h)

/-- Log the wording of a fatal error and fail with it. -/
def fatal {α : Type} (cause : Fatal) : Act α := fun h =>
  .error (.fatal cause) (h.log .error cause.message)

end Act

end HybridHeap
