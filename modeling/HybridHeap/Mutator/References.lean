import HybridHeap.Collector.Allocate
import HybridHeap.Mutator.Payloads

/-!
# Taking references

Allocating nodes, and taking, converting and comparing references to nodes that are there. Whatever
is taken is kept under an unused name. A step that makes no sense is refused before anything
happens.
-/

namespace HybridHeap.Mutator

open Collector

/-- Refuse kids with which a payload of the kind cannot be built. -/
def requireKids (kind : Kind) (kids : List NodeId) : Act Unit := do
  kids.forM requireReferable
  if kind.capacity.any (· < kids.length) then refuse
  if kind = .link then kids.forM fun kid => require fun h => h.kind kid == .link

/-- Refuse the name under which an allocation is to be kept, if it is in use or, for a stack root,
if a destructor is running. -/
def requireForm : AllocForm → Act Unit
  | .bare => pure ()
  | .root h => requireUnused h
  | .stackRoot h => do
    requireNoDestructor
    requireUnused h
  | .edge h => requireUnused h

/-- Keep a node that was just allocated in the form asked for. -/
def keepAs (n : NodeId) : AllocForm → Act Unit
  | .bare => pure ()
  | .root h => do keep h (.root n (← newRoot n))
  | .stackRoot h => do keep h (.stackRoot n (← newStackRoot n))
  | .edge h => do
    increment n
    keep h (.edge n)

/-- Allocate a node with edges to `kids` and keep it in the form asked for. The edges are counted
before the collector is called. -/
def allocate (run : Runner) (fuel : Nat) (form : AllocForm) (kind : Kind) (kids : List NodeId)
    (hook : Option Program) : Act NodeId := do
  requireForm form
  requireKids kind kids
  if kind = .overaligned && hook.isSome then refuse
  kids.forM (countEdge kind)
  let n ← Collector.allocate run fuel kind
    { places := placesFor kind.shape kids, hidden := [], tag := 0, borrowed := false, hook }
  keepAs n form
  return n

/-- Take a reference of some sort to a node and keep it. -/
def refer (name : HandleName) (n : NodeId) (take : Act Handle) : Act NodeId := do
  requireUnused name
  keep name (← take)
  return n

/-- Count an edge whose payload type is known. -/
def takeEdge (n : NodeId) : Act Handle := do
  increment n
  return .edge n

/-- Count an edge whose payload type is erased. -/
def takeErased (n : NodeId) : Act Handle := do
  increment n
  return .erased n

/-- Take an explicit root. -/
def takeRoot (n : NodeId) : Act Handle := return .root n (← newRoot n)

/-- Take a stack root. -/
def takeStackRoot (n : NodeId) : Act Handle := return .stackRoot n (← newStackRoot n)

/-- Take a reference to a node that can be referred to anew. -/
def referTo (name : HandleName) (n : NodeId) (take : NodeId → Act Handle) : Act NodeId := do
  requireReferable n
  refer name n (take n)

/-- Take an edge to the node that a root designates. A stack root must still be registered. -/
def edgeFrom (name source : HandleName) : Act NodeId := do
  requireUnused name
  match ← handle source with
  | .root n _ => refer name n (takeEdge n)
  | .stackRoot n index =>
    requireRegistered n index
    refer name n (takeEdge n)
  | _ => refuse

/-- Take a reference to the target of an edge. -/
def referToTarget (name source : HandleName) (take : NodeId → Act Handle) : Act NodeId := do
  match ← handle source with
  | .edge n => refer name n (take n)
  | _ => refuse

/-- Copy an edge or an explicit root. -/
def copy (name source : HandleName) : Act NodeId := do
  match ← handle source with
  | .edge n => refer name n (takeEdge n)
  | .erased n => refer name n (takeErased n)
  | .root n _ => refer name n (takeRoot n)
  | _ => refuse

/-- Erase the payload type of an edge; its count stays. -/
def eraseKind (name : HandleName) : Act NodeId := do
  match ← handle name with
  | .edge n =>
    release name
    keep name (.erased n)
    return n
  | _ => refuse

/-- Take an edge to the target of an erased edge, if its payload is of the kind. -/
def downcast (name source : HandleName) (kind : Kind) : Act (Option NodeId) := do
  requireUnused name
  match ← handle source with
  | .erased n =>
    if (← Act.view (·.kind n)) = kind then some <$> refer name n (takeEdge n) else return none
  | _ => refuse

/-- Whether an erased edge leads to a payload of the kind. -/
def isKind (name : HandleName) (kind : Kind) : Act Bool := do
  match ← handle name with
  | .erased n => Act.view fun h => h.kind n == kind
  | _ => refuse

/-- Drop a handle. It is gone even if dropping it fails. -/
def dropNamed (name : HandleName) : Act Unit := do
  let x ← handle name
  release name
  dropHandle x

/-- Lose a handle: what it holds is never released. -/
def forget (name : HandleName) : Act Unit := do
  let x ← handle name
  release name
  lose x 1

/-- Point a stack root at the target of an edge to the same kind of payload. -/
def retarget (name target : HandleName) : Act Unit := do
  requireNoDestructor
  match ← handle name, ← handle target with
  | .stackRoot n index, .edge m =>
    if (← Act.view (·.kind n)) ≠ (← Act.view (·.kind m)) then refuse
    requireRegistered n index
    Act.update (·.modifyRoots fun r => { r with stack := r.stack.setIfInBounds index m })
    release name
    keep name (.stackRoot m index)
  | _, _ => refuse

/-- Look at the payload behind a handle. -/
def readNamed (name : HandleName) : Act Reply := do
  match ← handle name with
  | .edge n => look n
  | .root n _ => look n
  | .stackRoot n index =>
    requireRegistered n index
    look n
  | _ => refuse

/-- The count behind an edge. -/
def refcount (name : HandleName) : Act Nat := do
  match ← handle name with
  | .edge n => Act.view fun h => (h.status n).count
  | _ => refuse

/-- Whether two handles of one sort lead to the same node. -/
def isSame (a b : HandleName) : Act Bool := do
  match ← handle a, ← handle b with
  | .edge n, .edge m => return n == m
  | .erased n, .erased m => return n == m
  | .root n _, .root m _ => return n == m
  | _, _ => refuse

end HybridHeap.Mutator
