import HybridHeap.Collector.FullCollection

/-!
# Allocation

Allocating a node: its payload is built first and owns its edges from then on, whatever collections
are due run next, and only then is the allocator asked for a block. If any of this fails, the
payload is dropped. A node starts with a count of zero and is on no queue.
-/

namespace HybridHeap.Collector

/-- Run the collections that are due before an allocation. -/
def collectIfDue (run : Runner) (fuel : Nat) : Act Unit := do
  if !(← Act.view Heap.isInhibited) then
    if ← Act.view liteDue then discard <| liteSweep run fuel
    if ← Act.view fullDue then discard <| collect run fuel

/-- A node for the given payload, which has no storage yet, and its number. -/
def reserve (kind : Kind) (payload : Payload) : Act NodeId := do
  let n ← Act.view (·.nodes.size)
  Act.update fun h =>
    { h with
      nodes := h.nodes.push
        { kind, status := .fresh false, payload := some payload, block := 0, stage := .unborn }
      rings := h.rings.newNode }
  return n

/-- Give a reserved node storage at the given address, put it on the live list, and mark its block
as holding a node. -/
def install (n : NodeId) (base : Memory.Address) : Act Unit := do
  let size ← Act.view fun h => (h.kind n).size
  Act.update (·.modifyMemory (·.push base size))
  Act.update fun h => h.modifyChronicle (·.reach h.bytes)
  let block ← Act.view (·.memory.lastBlock)
  let status ← Act.view fun h => Status.fresh h.cycle
  Act.update (·.modifyNode n fun node => { node with status, block, stage := .allocated })
  Act.update (·.modifyRings (·.pushBack liveList n))
  Act.update fun h => { h with nodeCount := h.nodeCount + 1 }
  Act.update (·.modifyMemory (·.setMark block))

/-- Allocate a reserved node, after the collections that are due. -/
def place (run : Runner) (fuel : Nat) (n : NodeId) : Act Unit := do
  collectIfDue run fuel
  let kind ← Act.view (·.kind n)
  if blockAlignment < kind.alignment then Act.fatal (.misaligned kind)
  match ← Act.view fun h => h.memory.admit? kind.size with
  | none => throw (.outOfMemory kind.size)
  | some base => install n base

/-- Allocate a node holding the given payload. -/
def allocate (run : Runner) (fuel : Nat) (kind : Kind) (payload : Payload) : Act NodeId := do
  let n ← reserve kind payload
  onFailure (place run fuel n) (dropPayload run n)
  return n

end HybridHeap.Collector
