import HybridHeap.Collector.Mark
import HybridHeap.Mutator.Handles

/-!
# Looking at nodes and memory

What can be asked of a node's header, of an address that may point into a node, and of the memory
underneath; and the misuse of references and storage that a collector has to survive or detect.
-/

namespace HybridHeap.Mutator

open Collector

/-- The header of a node. -/
def header (n : NodeId) : Act HeaderView := do
  requireAllocated n
  Act.view fun h => { kind := h.kind n, status := h.status n }

/-- The mark bit of a node. -/
def markBit (n : NodeId) : Act Bool := do
  requireAllocated n
  Act.view fun h => (h.status n).contains .mark

/-- The edges that tracing a node visits. -/
def trace (n : NodeId) : Act (List NodeId) := do
  requireReferable n
  let (edges, message) ← Act.view (traced · n)
  Act.update (logTrace · message)
  return edges

/-- Queue a node for the next lite sweep. -/
def queueNode (n : NodeId) : Act Unit := do
  requireReferable n
  makeMoribund n

/-- Take one edge to a node that has none and drop it twice. -/
def dropTwice (n : NodeId) : Act Unit := do
  requireReferable n
  require fun h => (h.status n).count == 0
  increment n
  decrement n
  decrement n

/-- The most edges that can be forgotten at once. -/
def leakLimit : Nat := 0x1000000

/-- Take edges to a node and forget them; the result is the count after that. -/
def leak (n : NodeId) (count : Nat) : Act Nat := do
  requireReferable n
  if leakLimit < count then refuse
  if count ≠ 0 then
    increment n
    Act.update fun h =>
      h.setStatus n (Nat.repeat (fun s => s.increment.1) (count - 1) (h.status n))
    lose (.edge n) count
  Act.view fun h => (h.status n).count

/-- A node's pointer and header as they are shown. -/
def showPointer (n : NodeId) : Act (String × String) := do
  requireAllocated n
  Act.view fun h => (s!"Gc<{(h.kind n).typeName}>({showNode n})", h.headerText n)

/-- The node whose storage is in the block, if the block is marked as holding one and no sweep has
dropped its payload. -/
def nodeIn? (h : Heap) (b : Memory.BlockId) : Option NodeId :=
  if h.memory.isMarked b then
    (h.nodes.findIdx? fun node => node.stage == .allocated && node.block == b).filter
      (!h.isDetached ·)
  else none

/-- The node whose storage contains the address. -/
def nodeAt? (h : Heap) (a : Memory.Address) : Option NodeId :=
  (h.memory.baseOf? a).bind (nodeIn? h)

/-- The bytes before and after a node's storage that can still be asked about. -/
def reach : Nat := 48

/-- The address at an offset from the storage of a node, which may be freed. -/
def addressOf? (h : Heap) (n : NodeId) (offset : Int) : Option Memory.Address := do
  let node ← h.node? n
  if node.stage = .unborn then none
  else if offset < -(reach : Int) || (node.kind.size + reach : Int) ≤ offset then none
  else some (h.memory.storageAddress node.block + offset).toNat

/-- Ask whether the address at an offset from a node's storage looks like a node. -/
def looks (n : NodeId) (offset : Int) : Act (Option NodeId) := do
  match ← Act.view (addressOf? · n offset) with
  | none => refuse
  | some a => Act.view (nodeAt? · a)

/-- Whether the byte at an offset from a node's storage may be written to find out if that is
noticed: in the redzones, or in storage that was freed. -/
def isPokeable (h : Heap) (n : NodeId) (offset : Int) : Bool :=
  match h.node? n with
  | none => false
  | some node =>
    let redzone : Int := Memory.Quarantine.redzoneSize
    let size : Int := node.kind.size
    let isInReach := -redzone ≤ offset && offset < size + redzone
    let isUnused := offset < 0 || size ≤ offset || node.stage == .freed
    h.memory.isShielded && node.stage != .unborn && isInReach && isUnused

/-- Write a byte at an offset from a node's storage. -/
def poke (n : NodeId) (offset : Int) (byte : UInt8) : Act Unit := do
  require (isPokeable · n offset)
  let block ← Act.view fun h => ((h.node? n).map Node.block).getD 0
  Act.update (·.modifyChronicle Chronicle.trespass)
  Act.update (·.modifyMemory (·.poke block offset byte))

/-- What the allocator says of itself. -/
def allocatorView (h : Heap) : AllocatorView :=
  { held := match h.memory with
      | .direct _ => none
      | .shielded q => some (q.heldBlocks, q.heldBytes)
    blocks := h.memory.store.blockCount
    text := h.memory.toText }

end HybridHeap.Mutator
