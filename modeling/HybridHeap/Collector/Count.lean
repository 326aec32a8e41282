import HybridHeap.Heap

/-!
# Counting references

Counting a reference to a node up or down, and what that does to the moribund queue: a node whose
count drops to zero is queued, a queued node that is referenced again is taken off.
-/

namespace HybridHeap.Collector

/-- Take a node off the moribund queue. -/
def unqueue (n : NodeId) : Act Unit := do
  if ← Act.view fun h => h.moribund.contains n then
    Act.update fun h => { h with moribund := h.moribund.erase n }
  else Act.fatal (.notQueued (← Act.view (·.kind n)) n)

/-- Put a node on the moribund queue. -/
def queue (n : NodeId) : Act Unit := Act.update fun h => { h with moribund := n :: h.moribund }

/-- Count one more reference to a node. -/
def increment (n : NodeId) : Act Unit := do
  let (status, outcome) ← Act.view fun h => (h.status n).increment
  Act.update (·.setStatus n status)
  if outcome = .revived then unqueue n

/-- Count one reference to a node fewer. -/
def decrement (n : NodeId) : Act Unit := do
  match ← Act.view fun h => (h.status n).decrement? with
  | some (status, outcome) =>
    Act.update (·.setStatus n status)
    if outcome = .orphaned then queue n
  | none => Act.fatal (.underflow (← Act.view (·.kind n)) n)

/-- Queue a node for the next lite sweep, unless it is queued already. -/
def makeMoribund (n : NodeId) : Act Unit := do
  let status ← Act.view (·.status n)
  if !status.contains .moribund then
    Act.update (·.setStatus n (status.insert .moribund))
    queue n

/-- Release counted edges in order. One that fails does not keep the rest from being released. -/
def releaseAll : List NodeId → Act Unit
  | [] => pure ()
  | n :: rest => ensuring (decrement n) (releaseAll rest)

/-- Run the destructor of a payload, if it has one. The node is dying meanwhile. -/
def runDestructor (run : Runner) (n : NodeId) : Act Unit := do
  match ← Act.view fun h => (h.payload? n).bind Payload.hook with
  | none => pure ()
  | some hook =>
    Act.update fun h => { h with dying := n :: h.dying }
    let answers ← ensuring (run hook) (Act.update fun h => { h with dying := h.dying.tail })
    Act.update (·.emit (.destructor n answers))

/-- Release the edges that a payload holds, after which it is gone. -/
def releasePayload (n : NodeId) : Act Unit := do
  let edges ← Act.view fun h => ((h.payload? n).map Payload.allEdges).getD []
  Act.update (·.modifyNode n fun node => { node with payload := none })
  releaseAll edges

/-- Drop the payload of a node: run its destructor, then release the edges it holds, also if the
destructor failed. -/
def dropPayload (run : Runner) (n : NodeId) : Act Unit := do
  Act.update fun h => (h.emit (.dropped n)).befall n .started
  onFailure (ensuring (runDestructor run n) (releasePayload n))
    (Act.update (·.befall n .unwound))
  Act.update (·.befall n .returned)

end HybridHeap.Collector
