import HybridHeap.Mutator.References

/-!
# Weak references

A weak reference holds its key without a count and its value with one, for as long as the key lives.
Its finalizer runs after the key has died. Edges to the key or the value can be taken while they are
there.
-/

namespace HybridHeap.Mutator

open Collector

/-- Put an entry into the weak table whose value, if it has one, has been counted. The result is its
slot. The finalizer is given by its name and what it does. -/
def insertWeak (key : NodeId) (value : Option NodeId) (finalizer : Option (HandleName × Program)) :
    Act Nat := do
  Act.update fun h => h.setStatus key ((h.status key).insert .weakKey)
  let slot ← Act.view (·.roots.weak.nextSlot)
  let number ← Act.view (·.chronicle.given)
  let entry : WeakEntry :=
    { key := some key, value
      finalizer := finalizer.map fun (name, program) => { number, name, program } }
  let making ← Act.view fun h =>
    { key, detached := h.isDetached key, phase := h.phase, finalizer := entry.number? : Making }
  Act.update (·.modifyChronicle (·.make slot making))
  Act.update (·.modifyRoots fun r => { r with weak := r.weak.insert entry })
  return slot

/-- Make a weak reference. The count of its value is taken first. -/
def newWeak (name : HandleName) (key : NodeId) (value : Option NodeId)
    (finalizer : Option Program) : Act Unit := do
  requireUnused name
  requireReferable key
  value.toList.forM requireReferable
  value.toList.forM increment
  keep name (.weak (← insertWeak key value (finalizer.map fun program => (name, program))))

/-- The slot of the weak reference held under a name. -/
def weakSlot (name : HandleName) : Act Nat := do
  match ← handle name with
  | .weak slot => return slot
  | _ => refuse

/-- The key of a weak reference, unless it has expired. -/
def weakNode (name : HandleName) : Act (Option NodeId) := do
  let slot ← weakSlot name
  Act.view (weakKey? slot)

/-- Take an edge to what `part` finds of a weak reference, if its payload is of the kind, and keep
it under a name or drop it at once. -/
def weakEdge (part : Nat → Heap → Option NodeId) (name : HandleName) (kind : Kind)
    (keepName : Option HandleName) : Act (Option NodeId) := do
  let slot ← weakSlot name
  keepName.toList.forM requireUnused
  match ← Act.view fun h => (part slot h).filter fun n => h.kind n == kind with
  | none => return none
  | some n =>
    increment n
    match keepName with
    | some other => keep other (.edge n)
    | none => decrement n
    return some n

end HybridHeap.Mutator
