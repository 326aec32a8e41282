import HybridHeap.Heap

/-!
# The trigger of full collections

When allocation asks for a full collection, and how the trigger is retuned after one. An adaptive
trigger is the size of the live heap plus the larger of the least headroom and the headroom that the
collection earned; a fixed trigger is only raised, to twice the live heap once that has outgrown it.
-/

namespace HybridHeap

/-- The adaptive heap limit. -/
structure Balancer where
  /-- The least headroom above the live heap. -/
  leastHeadroom : Nat
  limit : Nat
  deriving DecidableEq

namespace Balancer

/-- The limit before the first collection is the least headroom. -/
def new (leastHeadroom : Nat) : Balancer := ⟨leastHeadroom, leastHeadroom⟩

/-- The start of a collection at the given heap size leaves the limit as it is. -/
def started (b : Balancer) (_bytes : Nat) : Balancer := b

/-- The limit after a collection that left `live` bytes and earned some headroom; `none` if it does
not fit in a word. -/
def ended? (b : Balancer) (headroom live : Nat) : Option Balancer :=
  (Word.fit? (live + max headroom b.leastHeadroom)).map fun limit => { b with limit }

end Balancer

namespace Collector

/-- Set the trigger, but not below its minimum. -/
def setTrigger (bytes : Nat) : Act Unit :=
  Act.update fun h => { h with trigger := max bytes h.config.minTrigger }

/-- Retune the trigger after a full collection. -/
def retune : Act Unit := do
  let live ← Act.view Heap.bytes
  if ← Act.view (·.config.adaptive) then
    let headroom ← Act.view fun h => h.headroom h.stats.fullCollections
    match (Balancer.new (← Act.view (·.config.minTrigger))).ended? headroom live with
    | some b => setTrigger b.limit
    | none => throw .overflow
  else if ← Act.view fun h => decide (h.trigger ≤ live) then
    let raised := Word.doubleSaturating live
    Act.update (·.log .warning
      (s!"Live heap ({live} bytes) exceeds the fixed trigger level, " ++
        s!"raising it to {raised} bytes"))
    setTrigger raised

/-- Whether a lite sweep is due before the next allocation. -/
def liteDue (h : Heap) : Bool :=
  match h.config.mode with
  | .normal => h.liteThreshold < h.bytes
  | .aggressive => true
  | .rare => h.trigger < h.bytes

/-- Whether a full collection is due before the next allocation. -/
def fullDue (h : Heap) : Bool := h.enabled && h.trigger < h.bytes

end Collector

end HybridHeap
