import HybridHeap.Mutator.Handles

/-!
# Stacks of roots and root sources

The protect stack and the node stack, which hold uncounted roots; unwinding them together with the
stack roots to a snapshot; and registering sources of roots that the collector does not own.
-/

namespace HybridHeap.Mutator

/-- Change the protect stack. -/
def modifyProtect (f : Array NodeId → Array NodeId) : Act Unit :=
  Act.update (·.modifyRoots fun r => { r with protect := f r.protect })

/-- Change the node stack. -/
def modifyNodeStack (f : Array NodeId → Array NodeId) : Act Unit :=
  Act.update (·.modifyRoots fun r => { r with nodeStack := f r.nodeStack })

/-- Refuse a node that cannot be put on a stack of roots now. -/
def requireStackable (n : NodeId) : Act Unit := do
  requireNoDestructor
  requireReferable n

/-- Push a node on the protect stack; the result is its place. -/
def protect (n : NodeId) : Act Nat := do
  requireStackable n
  let place ← Act.view (·.roots.protect.size)
  modifyProtect (·.push n)
  return place

/-- Pop entries off the protect stack. -/
def unprotect (count : Nat) : Act Unit := do
  let depth ← Act.view (·.roots.protect.size)
  if depth < count then Act.fatal (.unprotectTooMany count depth)
  modifyProtect (·.take (depth - count))

/-- Replace an entry of the protect stack. -/
def reprotect (n : NodeId) (place : Nat) : Act Unit := do
  requireStackable n
  let depth ← Act.view (·.roots.protect.size)
  if depth ≤ place then Act.fatal (.reprotectBeyond place depth)
  modifyProtect (·.setIfInBounds place n)

/-- Shrink the protect stack to a size it had before. -/
def restoreProtect (size : Nat) : Act Unit := do
  let depth ← Act.view (·.roots.protect.size)
  if depth < size then Act.fatal (.growProtect depth size)
  modifyProtect (·.take size)

/-- Push a node on the node stack. -/
def push (n : NodeId) : Act Unit := do
  requireStackable n
  modifyNodeStack (·.push n)

/-- Pop the topmost node off the node stack, if there is one. -/
def pop : Act (Option NodeId) := do
  let top ← Act.view (·.roots.nodeStack.back?)
  modifyNodeStack (·.pop)
  return top

/-- Shrink the node stack to a size it had before. -/
def restoreStack (size : Nat) : Act Unit := do
  let depth ← Act.view (·.roots.nodeStack.size)
  if depth < size then Act.fatal (.growNodeStack depth size)
  modifyNodeStack (·.take size)

/-- Record the depths of the three stacks. -/
def takeSnapshot (name : HandleName) : Act RootSnapshot := do
  requireUnused name
  let s ← Act.view (·.roots.snapshot)
  keep name (.snapshot s)
  return s

/-- The roots with all three stacks cut to the depths of a snapshot. -/
def unwind (s : RootSnapshot) (r : Roots) : Roots :=
  { r with
    stack := r.stack.take s.stackRoots
    protect := r.protect.take s.protectStack
    nodeStack := r.nodeStack.take s.nodeStack }

/-- Whether a stack is shallower now than a snapshot has it. -/
def isShallower (current wanted : RootSnapshot) : Bool :=
  current.stackRoots < wanted.stackRoots || current.protectStack < wanted.protectStack ||
    current.nodeStack < wanted.nodeStack

/-- Unwind the three stacks to a snapshot; none of them may be shallower. -/
def restoreTo (s : RootSnapshot) : Act Unit := do
  let current ← Act.view (·.roots.snapshot)
  if isShallower current s then Act.fatal (.restoreShallower s current)
  Act.update (·.modifyRoots (unwind s))

/-- Unwind the three stacks to the snapshot held under a name. -/
def restore (name : HandleName) : Act Unit := do
  match ← handle name with
  | .snapshot s => restoreTo s
  | _ => refuse

/-- Register a root source; the result is its identifier, the lowest that is not in use. -/
def registerSource (s : SourceId) : Act Nat := do
  let sources ← Act.view (·.roots.external)
  let identifier := (sources.findIdx? Option.isNone).getD sources.size
  Act.update (·.modifyRoots fun r =>
    { r with external :=
        if identifier < r.external.size then r.external.setIfInBounds identifier (some s)
        else r.external.push (some s) })
  return identifier

/-- Register a new root source that designates the given nodes. -/
def newSource (name : HandleName) (nodes : List NodeId) (pins : Bool) : Act Nat := do
  requireUnused name
  let s ← Act.view (·.sources.size)
  Act.update fun h => { h with sources := h.sources.push { nodes, pins } }
  let identifier ← registerSource s
  keep name (.source s identifier)
  return identifier

/-- Change what a root source designates, registered or not. -/
def designate (name : HandleName) (nodes : List NodeId) : Act Unit := do
  match ← handle name with
  | .source s _ =>
    Act.update fun h =>
      { h with sources := h.sources.modify s fun source => { source with nodes } }
  | _ => refuse

/-- Unregister the root source that has the given identifier now, if there is one, and give it
back. -/
def unregisterSource (identifier : Nat) : Act (Option SourceId) := do
  let source ← Act.view (·.registered identifier)
  Act.update (·.modifyRoots fun r =>
    { r with external := r.external.setIfInBounds identifier none })
  return source

/-- Unregister the root source that has the identifier of this one now. The result tells whether
there was one. -/
def unregister (name : HandleName) : Act Bool := do
  match ← handle name with
  | .source _ identifier => Option.isSome <$> unregisterSource identifier
  | _ => refuse

end HybridHeap.Mutator
