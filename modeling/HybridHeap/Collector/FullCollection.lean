import HybridHeap.Collector.LiteSweep
import HybridHeap.Collector.Mark
import HybridHeap.Collector.Trigger

/-!
# Full collections

A full collection marks everything reachable from the roots, drops the payload of every node that
stayed unmarked, and reclaims with a lite sweep whatever no longer has a count. Destructors run in
the middle of the sweep, whose work list is the live list that allocation appends to. Around it the
manager sees to it that collections do not nest, retunes the trigger and keeps the totals.
-/

namespace HybridHeap.Collector

/-- Mark from the roots. The result has the number of nodes marked, and the slots of the weak
entries whose key stayed unmarked. -/
def markReachable : Act (Nat × List Nat) := fun h =>
  let (m, dead) := Marking.run h
  .ok (m.count, dead) m.heap

/-- Mark from the roots, then release the values of the weak entries whose key stayed unmarked and
queue their finalizers. The result is the number of nodes marked. -/
def mark : Act Nat := do
  let (count, dead) ← markReachable
  expireEntries fun slot _ => dead.contains slot
  return count

/-- Take nodes off the front of the live list, dropping their payloads and queueing those without a
count, until the list is empty. The result counts on from `detached`. -/
def sweepLive (run : Runner) : Nat → Nat → Act Nat
  | 0, _ => throw .exhausted
  | fuel + 1, detached => do
    match ← Act.view fun h => h.rings.front? liveList with
    | none => return detached
    | some n =>
      Act.update (·.modifyRings (·.unlink (.node n)))
      detach run n (← Act.view (·.status n))
      if ← Act.view fun h => (h.status n).count == 0 then makeMoribund n
      sweepLive run fuel (detached + 1)

/-- Drop the payload of every node left on the live list, then make the reachable list the live
list. The result is the number of nodes detached. -/
def sweep (run : Runner) (fuel : Nat) : Act Nat := do
  let detached ← sweepLive run fuel 0
  Act.update (·.modifyRings (·.spliceBack liveList reachableList))
  return detached

/-- Set the phase. -/
def enterPhase (p : Phase) : Act Unit := Act.update fun h => { h with phase := p }

/-- Mark, sweep, and close with a lite sweep. -/
def markSweep (run : Runner) (fuel : Nat) : Act CollectionResult := do
  if ← Act.view Heap.isInhibited then Act.fatal .inhibited
  let (marked, detached) ← inhibiting do
    enterPhase .marking
    let marked ← mark
    enterPhase .sweeping
    let detached ← sweep run fuel
    return (marked, detached)
  let reclaimed ← liteSweep run fuel
  enterPhase .idle
  return { marked, detached, reclaimed }

/-- Add a full collection to the totals. -/
def record (r : CollectionResult) : Act Unit := Act.update fun h => h.modifyStats fun s =>
  { s with
    fullCollections := s.fullCollections + 1
    lastMarked := r.marked
    totalMarked := s.totalMarked + r.marked
    totalDetached := s.totalDetached + r.detached
    bytesAfterLastCollection := h.bytes }

/-- Report a full collection that began with `before` bytes. The time it took is a word. -/
def report (before : Nat) (r : CollectionResult) : Act Unit := Act.update fun h =>
  h.log .info
    (s!"Garbage collection {h.stats.fullCollections} = {r.marked} marked, " ++
      s!"{r.detached} detached, {r.reclaimed} reclaimed " ++
      s!"({before} -> {h.bytes} bytes, trigger {h.trigger} bytes, TIME, " ++
      s!"{h.pending.length} finalizers pending)")

/-- Run a full collection, unless one is under way: then nothing happens and the result is empty. -/
def collect (run : Runner) (fuel : Nat) : Act CollectionResult := do
  if ← Act.view (·.collecting) then return ⟨0, 0, 0⟩
  Act.update fun h => { h with collecting := true }
  ensuring
    (do
      let before ← Act.view Heap.bytes
      let result ← markSweep run fuel
      retune
      record result
      if ← Act.view (·.verbose) then report before result
      Act.update (·.modifyChronicle (·.collect result))
      return result)
    (Act.update fun h => { h with collecting := false })

/-- Run pending finalizers in the order in which they were queued, those included that are queued
meanwhile. The result counts on from `ran`. -/
def runFinalizers (run : Runner) : Nat → Nat → Act Nat
  | 0, _ => throw .exhausted
  | fuel + 1, ran => do
    match ← Act.view fun h => h.pending.head? with
    | none => return ran
    | some f =>
      Act.update (·.takeUp f)
      let answers ← run f.program
      Act.update (·.emit (.finalizer f.name answers))
      runFinalizers run fuel (ran + 1)

/-- Run the finalizers that are pending and count them. -/
def runPendingFinalizers (run : Runner) (fuel : Nat) : Act Nat := runFinalizers run fuel 0

/-- Run a lite sweep now, and any finalizers it left behind. -/
def runLiteSweep (run : Runner) (fuel : Nat) : Act Nat := do
  let reclaimed ← liteSweep run fuel
  discard <| runPendingFinalizers run fuel
  return reclaimed

/-- Run a full collection now, whether or not automatic collection is enabled, then any finalizers
it left behind. -/
def forceFullCollection (run : Runner) (fuel : Nat) : Act CollectionResult := do
  let result ← collect run fuel
  discard <| runPendingFinalizers run fuel
  return result

end HybridHeap.Collector
