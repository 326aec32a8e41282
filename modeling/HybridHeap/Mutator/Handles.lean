import HybridHeap.Collector.Count

/-!
# Handles

What a mutator holds under names: taking references to nodes, looking them up again, dropping them,
and how they are shown. Every counted edge, explicit root and weak value holds one count of its
node; stack roots hold none.
-/

namespace HybridHeap.Mutator

open Collector

/-- Fail, because the step makes no sense here. -/
def refuse {α : Type} : Act α := throw .refused

/-- Refuse unless a condition holds. -/
def require (p : Heap → Bool) : Act Unit := do
  if !(← Act.view p) then refuse

/-- Refuse a node that has no storage. -/
def requireAllocated (n : NodeId) : Act Unit := require (·.isAllocated n)

/-- Refuse a node that cannot be referred to anew: it has no storage, or its destructor is
running. -/
def requireReferable (n : NodeId) : Act Unit :=
  require fun h => h.isAllocated n && !h.dying.contains n

/-- Refuse while any destructor is running. -/
def requireNoDestructor : Act Unit := require (·.dying.isEmpty)

/-- Refuse a name that is in use. -/
def requireUnused (name : HandleName) : Act Unit :=
  require fun h => (h.handles.lookup name).isNone

/-- The handle of that name. -/
def handle (name : HandleName) : Act Handle := do
  match ← Act.view (·.handles.lookup name) with
  | some x => return x
  | none => refuse

/-- Hold something under a name. -/
def keep (name : HandleName) (x : Handle) : Act Unit :=
  Act.update fun h => { h with handles := (name, x) :: h.handles }

/-- Stop holding what is held under a name. -/
def release (name : HandleName) : Act Unit :=
  Act.update fun h => { h with handles := h.handles.eraseP fun (other, _) => other == name }

/-- Lose so many of something for good. -/
def lose (x : Handle) (count : Nat) : Act Unit :=
  Act.update fun h => { h with lost := (x, count) :: h.lost }

/-- A new explicit root on a node; the result is its slot. -/
def newRoot (n : NodeId) : Act Nat := do
  increment n
  let slot ← Act.view (·.roots.explicit.nextSlot)
  Act.update (·.modifyRoots fun r => { r with explicit := r.explicit.insert n })
  return slot

/-- Drop an explicit root. -/
def dropRoot (n : NodeId) (slot : Nat) : Act Unit := do
  Act.update (·.modifyRoots fun r => { r with explicit := r.explicit.erase slot })
  decrement n

/-- A new stack root on a node; the result is its index. -/
def newStackRoot (n : NodeId) : Act Nat := do
  let index ← Act.view (·.roots.stack.size)
  Act.update (·.modifyRoots fun r => { r with stack := r.stack.push n })
  return index

/-- Drop a stack root. It must be the topmost, unless its entry is gone already. -/
def dropStackRoot (n : NodeId) (index : Nat) : Act Unit := do
  let stack ← Act.view (·.roots.stack)
  if stack[index]? = some n then
    if index + 1 ≠ stack.size then Act.fatal (.stackRootOrder index stack.size)
    Act.update (·.modifyRoots fun r => { r with stack := r.stack.pop })

/-- A stack root may only be used while its entry designates its node. -/
def requireRegistered (n : NodeId) (index : Nat) : Act Unit := do
  if (← Act.view (·.roots.stack[index]?)) ≠ some n then
    Act.fatal (.stackRootUnwound index (← Act.view (·.kind n)))

/-- Drop a weak reference: its entry goes away and its finalizer is not run. -/
def dropWeak (slot : Nat) : Act Unit := do
  let entry ← Act.view (·.roots.weak.get? slot)
  Act.update (·.modifyChronicle (·.discard (entry.bind WeakEntry.number?)))
  Act.update (·.modifyRoots fun r => { r with weak := r.weak.erase slot })
  releaseAll (entry.bind WeakEntry.value).toList

/-- Drop what a handle holds. -/
def dropHandle : Handle → Act Unit
  | .edge n => decrement n
  | .erased n => decrement n
  | .root n slot => dropRoot n slot
  | .stackRoot n index => dropStackRoot n index
  | .weak slot => dropWeak slot
  | .inhibitor => Act.update fun h => { h with inhibitors := h.inhibitors - 1 }
  | .snapshot _ => pure ()
  | .source _ _ => pure ()

/-- The key of the weak reference in a slot, unless it has expired. -/
def weakKey? (slot : Nat) (h : Heap) : Option NodeId := (h.roots.weak.get? slot).bind WeakEntry.key

/-- The value of the weak reference in a slot, unless it has expired. -/
def weakValue? (slot : Nat) (h : Heap) : Option NodeId :=
  (h.roots.weak.get? slot).bind WeakEntry.value

/-- The identifier of a registered root source as it is shown. -/
def showSourceId (identifier : Nat) : String := s!"RootSourceId({identifier})"

/-- A handle as it is shown. -/
def showHandle (h : Heap) : Handle → Option String
  | .edge n => some (Text.record "GcEdge" [("ptr", showNode n), ("header", h.headerText n)])
  | .erased n => some (Text.record "AnyEdge" [("ptr", showNode n), ("header", h.headerText n)])
  | .root n slot =>
    some (Text.record "Root" [("slot", toString slot), ("header", h.headerText n)])
  | .stackRoot n index =>
    some (Text.record "StackRoot" [("index", toString index), ("ptr", showNode n)])
  | .weak slot =>
    some (Text.record "WeakRef"
      [("slot", toString slot), ("key", Text.optional showNode (weakKey? slot h))])
  | .inhibitor => none
  | .snapshot s => some s.toText
  | .source _ identifier => some (showSourceId identifier)

end HybridHeap.Mutator
