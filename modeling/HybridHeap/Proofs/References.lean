import HybridHeap.Proofs.Slots
import HybridHeap.Proofs.StatusWord
import HybridHeap.Proofs.Sums

/-!
# References

The holders of a node: the counted edges in payloads and in handles, the explicit roots, the values
of weak entries, and what the mutator has lost without dropping it. They are counted node by node
over the whole heap, so an operation that adds or removes one holder changes one of five sums by
one. The lemmas before that say what a change of one node shows of the others, which is nothing.
-/

namespace HybridHeap

/-- The edges that a node counts: those of its payload, none once that is dropped. -/
def Node.edges (node : Node) : List NodeId := (node.payload.map Payload.allEdges).getD []

/-- The edges that a handle counts. -/
def Handle.edges : Handle → List NodeId
  | .edge n | .erased n => [n]
  | _ => []

/-- The edges that a weak entry counts. -/
def WeakEntry.edges (e : WeakEntry) : List NodeId := e.value.toList

namespace Heap

variable {h : Heap} {n m : NodeId}

/-- The stage of a node. -/
def stage (h : Heap) (n : NodeId) : Stage := (h.nodes[n]?.map Node.stage).getD .unborn

/-- The block of a node's storage. -/
def block (h : Heap) (n : NodeId) : Memory.BlockId := (h.nodes[n]?.map Node.block).getD 0

/-- The edges that the payload of a node counts. -/
def edges (h : Heap) (n : NodeId) : List NodeId := (h.nodes[n]?.map Node.edges).getD []

theorem isAllocated_iff : h.isAllocated n = true ↔ h.stage n = .allocated := by
  unfold isAllocated stage
  rw [beq_iff_eq]

/-- A node that has storage is there. -/
theorem exists_of_isAllocated (hn : h.isAllocated n = true) :
    ∃ node, h.nodes[n]? = some node ∧ node.stage = .allocated := by
  rw [isAllocated_iff] at hn
  unfold stage at hn
  cases hnode : h.nodes[n]? with
  | none => rw [hnode] at hn; cases hn
  | some node => rw [hnode] at hn; exact ⟨node, rfl, hn⟩

theorem lt_size_of_isAllocated (hn : h.isAllocated n = true) : n < h.nodes.size := by
  obtain ⟨node, hnode, -⟩ := exists_of_isAllocated hn
  exact (Array.getElem?_eq_some_iff.1 hnode).1

/-- What is not there has no payload. -/
theorem payload?_of_le (hn : h.nodes.size ≤ n) : h.payload? n = none := by
  unfold payload?
  rw [Array.getElem?_eq_none hn]
  rfl

/-- A node that has a payload is there. -/
theorem lt_size_of_payload (hn : (h.payload? n).isSome) : n < h.nodes.size := by
  by_contra hge
  rw [payload?_of_le (Nat.not_lt.1 hge)] at hn
  cases hn

/-- A node that is not there looks like a fresh one. -/
theorem status_of_le (hn : h.nodes.size ≤ n) : h.status n = .fresh false := by
  unfold status
  rw [Array.getElem?_eq_none hn]
  rfl

/-- A node that has a flag is there. -/
theorem lt_size_of_contains {f : Flag} (hf : (h.status n).contains f = true) :
    n < h.nodes.size := by
  by_contra hge
  rw [status_of_le (Nat.not_lt.1 hge), Status.contains_fresh] at hf
  cases hf

/-- A node that has a count is there. -/
theorem lt_size_of_count (hn : (h.status n).count ≠ 0) : n < h.nodes.size := by
  by_contra hge
  rw [status_of_le (Nat.not_lt.1 hge), Status.count_fresh] at hn
  exact hn rfl

theorem payload?_eq_join (h : Heap) (n : NodeId) :
    h.payload? n = (h.nodes[n]?.map Node.payload).join := by
  unfold payload?
  cases h.nodes[n]? <;> rfl

/-- The edges that a node counts are those of its payload. -/
theorem edges_eq (h : Heap) (n : NodeId) :
    h.edges n = ((h.payload? n).map Payload.allEdges).getD [] := by
  unfold edges payload? Node.edges
  cases h.nodes[n]? <;> rfl

/-! ## Changing one node -/

/-- Changing a node leaves the others. -/
theorem getElem?_modifyNode (h : Heap) (n m : NodeId) (f : Node → Node) :
    (h.modifyNode n f).nodes[m]? = if m = n then h.nodes[m]?.map f else h.nodes[m]? := by
  unfold modifyNode
  rw [Array.getElem?_modify]
  by_cases hmn : m = n
  · simp [hmn]
  · simp [hmn, Ne.symm hmn]

/-- What a change of a node leaves of it is what it was of any node. -/
theorem map_modifyNode {α : Type} {f : Node → Node} {p : Node → α}
    (hf : ∀ node, p (f node) = p node) (h : Heap) (n m : NodeId) :
    (h.modifyNode n f).nodes[m]?.map p = h.nodes[m]?.map p := by
  rw [getElem?_modifyNode]
  split_ifs
  · rw [Option.map_map]
    congr 1
    funext node
    exact hf node
  · rfl

@[simp] theorem size_nodes_modifyNode (h : Heap) (n : NodeId) (f : Node → Node) :
    (h.modifyNode n f).nodes.size = h.nodes.size := by
  simp [modifyNode]

@[simp] theorem size_nodes_setStatus (h : Heap) (n : NodeId) (s : Status) :
    (h.setStatus n s).nodes.size = h.nodes.size := size_nodes_modifyNode _ _ _

section

variable {f : Node → Node}

theorem stage_modifyNode (hf : ∀ node, (f node).stage = node.stage) (h : Heap) (n m : NodeId) :
    (h.modifyNode n f).stage m = h.stage m := by
  unfold stage
  rw [map_modifyNode hf]

theorem isAllocated_modifyNode (hf : ∀ node, (f node).stage = node.stage) (h : Heap)
    (n m : NodeId) : (h.modifyNode n f).isAllocated m = h.isAllocated m := by
  unfold isAllocated
  rw [map_modifyNode hf]

theorem kind_modifyNode (hf : ∀ node, (f node).kind = node.kind) (h : Heap) (n m : NodeId) :
    (h.modifyNode n f).kind m = h.kind m := by
  unfold kind
  rw [map_modifyNode hf]

theorem block_modifyNode (hf : ∀ node, (f node).block = node.block) (h : Heap) (n m : NodeId) :
    (h.modifyNode n f).block m = h.block m := by
  unfold block
  rw [map_modifyNode hf]

theorem status_modifyNode (hf : ∀ node, (f node).status = node.status) (h : Heap) (n m : NodeId) :
    (h.modifyNode n f).status m = h.status m := by
  unfold status
  rw [map_modifyNode hf]

theorem payload?_modifyNode (hf : ∀ node, (f node).payload = node.payload) (h : Heap)
    (n m : NodeId) : (h.modifyNode n f).payload? m = h.payload? m := by
  rw [payload?_eq_join, payload?_eq_join, map_modifyNode hf]

end

@[simp] theorem stage_setStatus (h : Heap) (n m : NodeId) (s : Status) :
    (h.setStatus n s).stage m = h.stage m := stage_modifyNode (fun _ => by rfl) h n m

@[simp] theorem isAllocated_setStatus (h : Heap) (n m : NodeId) (s : Status) :
    (h.setStatus n s).isAllocated m = h.isAllocated m :=
  isAllocated_modifyNode (fun _ => by rfl) h n m

@[simp] theorem kind_setStatus (h : Heap) (n m : NodeId) (s : Status) :
    (h.setStatus n s).kind m = h.kind m := kind_modifyNode (fun _ => by rfl) h n m

@[simp] theorem block_setStatus (h : Heap) (n m : NodeId) (s : Status) :
    (h.setStatus n s).block m = h.block m := block_modifyNode (fun _ => by rfl) h n m

@[simp] theorem payload?_setStatus (h : Heap) (n m : NodeId) (s : Status) :
    (h.setStatus n s).payload? m = h.payload? m := payload?_modifyNode (fun _ => by rfl) h n m

/-- The status that was set is the status of the node, and of no other. -/
theorem status_setStatus (hn : n < h.nodes.size) (m : NodeId) (s : Status) :
    (h.setStatus n s).status m = if m = n then s else h.status m := by
  unfold status setStatus
  rw [getElem?_modifyNode]
  by_cases hmn : m = n
  · subst hmn
    simp [Array.getElem?_eq_getElem hn]
  · simp [hmn]

/-- The status of a node that is not there cannot be set. -/
theorem setStatus_of_le (hn : h.nodes.size ≤ n) (s : Status) : h.setStatus n s = h := by
  unfold setStatus modifyNode
  congr 1
  refine Array.ext_getElem? fun m => ?_
  rw [Array.getElem?_modify]
  split_ifs with hmn
  · rw [← hmn, Array.getElem?_eq_none hn]
    rfl
  · rfl

/-! ## Holders -/

/-- The edges to a node in payloads. -/
def payloadHolders (h : Heap) (n : NodeId) : Nat :=
  (h.nodes.toList.map fun node => node.edges.count n).sum

/-- The edges to a node that the mutator holds under names. -/
def handleHolders (h : Heap) (n : NodeId) : Nat :=
  (h.handles.map fun x => x.2.edges.count n).sum

/-- The explicit roots on a node. -/
def rootHolders (h : Heap) (n : NodeId) : Nat := h.roots.explicit.toList.count n

/-- The weak entries that hold a node as their value. -/
def weakHolders (h : Heap) (n : NodeId) : Nat :=
  (h.roots.weak.toList.map fun e => e.edges.count n).sum

/-- The edges to a node that the mutator has lost. -/
def lostHolders (h : Heap) (n : NodeId) : Nat :=
  (h.lost.map fun x => x.2 * x.1.edges.count n).sum

/-- The counted references to a node that exist. -/
def holders (h : Heap) (n : NodeId) : Nat :=
  h.payloadHolders n + h.handleHolders n + h.rootHolders n + h.weakHolders n + h.lostHolders n

/-- A change of a node that leaves its payload leaves the holders in payloads. -/
theorem payloadHolders_modifyNode (h : Heap) (n m : NodeId) {f : Node → Node}
    (hf : ∀ node, (f node).payload = node.payload) :
    (h.modifyNode n f).payloadHolders m = h.payloadHolders m :=
  sum_modify_of_eq h.nodes n fun node => by rw [Node.edges, Node.edges, hf]

@[simp] theorem payloadHolders_setStatus (h : Heap) (n m : NodeId) (s : Status) :
    (h.setStatus n s).payloadHolders m = h.payloadHolders m :=
  payloadHolders_modifyNode h n m fun _ => by rfl

@[simp] theorem holders_setStatus (h : Heap) (n m : NodeId) (s : Status) :
    (h.setStatus n s).holders m = h.holders m :=
  congrArg (· + h.handleHolders m + h.rootHolders m + h.weakHolders m + h.lostHolders m)
    (payloadHolders_setStatus h n m s)

/-- Changing the payload of a node changes the holders by what it changes of the edges there. -/
theorem payloadHolders_modifyNode_add (hn : n < h.nodes.size) (f : Node → Node) (m : NodeId) :
    (h.modifyNode n f).payloadHolders m + (h.edges n).count m =
      h.payloadHolders m + ((h.modifyNode n f).edges n).count m := by
  have hnode : h.nodes[n]? = some h.nodes[n] := Array.getElem?_eq_getElem hn
  have hsum := sum_modify hnode f fun node => node.edges.count m
  have hold : h.edges n = h.nodes[n].edges := by
    unfold edges
    rw [hnode]
    rfl
  have hnew : (h.modifyNode n f).edges n = (f h.nodes[n]).edges := by
    unfold edges
    rw [getElem?_modifyNode, if_pos rfl, hnode]
    rfl
  rw [hold, hnew]
  exact hsum

/-- An edge in a payload is a holder. -/
theorem count_edges_le (h : Heap) (n m : NodeId) : (h.edges n).count m ≤ h.payloadHolders m := by
  unfold edges
  cases hn : h.nodes[n]? with
  | none => simp
  | some node => exact le_sum hn fun node => node.edges.count m

/-- The value of a weak entry has a holder. -/
theorem weakHolders_pos {e : WeakEntry} (he : e ∈ h.roots.weak.toList) (hn : e.value = some n) :
    0 < h.weakHolders n := by
  have hle : e.edges.count n ≤ h.weakHolders n :=
    List.single_le_sum (fun _ _ => Nat.zero_le _) _ (List.mem_map_of_mem he)
  have hcount : e.edges.count n = 1 := by simp [WeakEntry.edges, hn]
  omega

/-- The target of an edge held under a name has a holder. -/
theorem handleHolders_pos {name : HandleName} {x : Handle} (hx : (name, x) ∈ h.handles)
    (hn : n ∈ x.edges) : 0 < h.handleHolders n := by
  have hle : x.edges.count n ≤ h.handleHolders n :=
    List.single_le_sum (fun _ _ => Nat.zero_le _) _ (List.mem_map_of_mem hx)
  have hcount : 0 < x.edges.count n := List.count_pos_iff.2 hn
  omega

end Heap

end HybridHeap
