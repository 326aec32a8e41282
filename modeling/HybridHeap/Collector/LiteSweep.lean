import HybridHeap.Collector.Count

/-!
# Lite sweeps

A lite sweep reclaims every moribund node whose count is still zero, without tracing anything.
Roots that hold no count are pinned for its duration, that is, counted once for every time they
designate a node. Dropping the payload of one node may make others moribund, and the sweep goes on
until the queue is empty. Collections are inhibited while it runs.
-/

namespace HybridHeap.Collector

/-- Hold off collections while `body` runs. -/
def inhibiting {α : Type} (body : Act α) : Act α := do
  Act.update fun h => { h with inhibitors := h.inhibitors + 1 }
  ensuring body (Act.update fun h => { h with inhibitors := h.inhibitors - 1 })

/-- What is left of a weak entry whose key died. -/
structure Expired where
  value : Option NodeId
  finalizer : Option Finalizer

/-- The number of the finalizer that is left of an entry, if it had one. -/
def Expired.number? (e : Expired) : Option Nat := e.finalizer.map Finalizer.number

/-- An entry whose key died: it keeps its slot but holds nothing. -/
def hollow : WeakEntry := { key := none, value := none, finalizer := none }

/-- What is left of the entries for which `p` holds, in the order of their slots. -/
def expired (p : Nat → WeakEntry → Bool) (t : SlotTable WeakEntry) : List Expired :=
  (t.entries.filter fun (slot, e) => p slot e).map fun (_, e) => ⟨e.value, e.finalizer⟩

/-- The table after the entries for which `p` holds have expired. -/
def expire (p : Nat → WeakEntry → Bool) (t : SlotTable WeakEntry) : SlotTable WeakEntry :=
  { t with slots := t.slots.mapIdx fun slot entry =>
      entry.map fun e => if p slot e then hollow else e }

/-- Release the values of expired entries and queue their finalizers. If one value cannot be
released the rest still are, but their finalizers are lost. -/
def settle : List Expired → Act Unit
  | [] => pure ()
  | e :: rest => do
    onFailure (e.value.toList.forM decrement) (releaseAll (rest.filterMap Expired.value))
    Act.update fun h => { h with pending := h.pending ++ e.finalizer.toList }
    Act.update fun h => h.modifyChronicle (·.queue e.number? h.history h.phase)
    settle rest

/-- Expire the weak entries for which `p` holds. -/
def expireEntries (p : Nat → WeakEntry → Bool) : Act Unit := do
  let dead ← Act.view fun h => expired p h.roots.weak
  Act.update (·.modifyRoots fun r => { r with weak := expire p r.weak })
  settle dead

/-- Give the storage of a node back to the allocator. -/
def deallocate (n : NodeId) : Act Unit := do
  let block ← Act.view fun h => ((h.node? n).map Node.block).getD 0
  let size ← Act.view fun h => (h.kind n).size
  Act.update fun h => h.modifyChronicle (·.giveBack (h.isAllocated n))
  Act.update fun h => (h.modifyMemory (·.clearMark block)).modifyNode n fun node =>
    { node with stage := .freed }
  match ← Act.view fun h => h.memory.fault? block size with
  | none =>
    Act.update (·.modifyMemory (·.release block size))
    (← Act.view (·.memory.straySizes)).forM fun size =>
      Act.update (·.log .error (unknownFreeText size none))
    Act.update fun h => (h.emit (.freed n)).befall n .freed
  | some .redzoneDamaged => Act.fatal (.redzoneDamaged size (some n))
  | some .overflow => throw .overflow
  | some .overdrawn =>
    Act.update (·.modifyMemory (·.afterFault .overdrawn block size))
    throw .overflow
  | some .unknownBlock =>
    Act.update (·.log .error (unknownFreeText size (some n)))

/-- Drop the payload of a node for good, if no sweep has done so yet; its status is given. -/
def detach (run : Runner) (n : NodeId) (status : Status) : Act Unit := do
  if !status.contains .detached then
    Act.update (·.setStatus n (status.insert .detached))
    dropPayload run n

/-- Reclaim a node whose count is zero: drop its payload if no sweep has, and give its storage
back. -/
def destroy (run : Runner) (n : NodeId) : Act Unit := do
  if ← Act.view fun h => (h.status n).contains .moribund then
    unqueue n
    Act.update fun h => h.setStatus n ((h.status n).erase .moribund)
  Act.update (·.modifyRings (·.unlink (.node n)))
  let status ← Act.view (·.status n)
  if status.contains .weakKey then
    expireEntries fun _ e => e.key == some n
  detach run n status
  Act.update fun h => { h with nodeCount := h.nodeCount - 1 }
  deallocate n

/-- Reclaim queued nodes, the one queued last first, until the queue is empty. The result counts on
from `reclaimed`. -/
def drain (run : Runner) : Nat → Nat → Act Nat
  | 0, _ => throw .exhausted
  | fuel + 1, reclaimed => do
    match ← Act.view fun h => h.moribund.head? with
    | none => return reclaimed
    | some n =>
      Act.update fun h => { h with moribund := h.moribund.tail }
      Act.update fun h => h.setStatus n ((h.status n).erase .moribund)
      if ← Act.view fun h => (h.status n).count == 0 then
        destroy run n
        drain run fuel (reclaimed + 1)
      else drain run fuel reclaimed

/-- Run a lite sweep, unless collections are inhibited, and count the nodes reclaimed. -/
def liteSweep (run : Runner) (fuel : Nat) : Act Nat := do
  if ← Act.view Heap.isInhibited then return 0
  inhibiting do
    let pinned ← Act.view Heap.pinned
    pinned.forM increment
    let reclaimed ← drain run fuel 0
    pinned.reverse.forM decrement
    Act.update fun h =>
      { h with liteThreshold := Word.addSaturating h.bytes h.config.margin }
    Act.update (·.modifyStats fun s =>
      { s with liteSweeps := s.liteSweeps + 1, totalReclaimed := s.totalReclaimed + reclaimed })
    Act.update (·.modifyChronicle (·.sweep reclaimed))
    return reclaimed

end HybridHeap.Collector
