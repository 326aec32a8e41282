import HybridHeap.Proofs.Running

/-!
# Nothing dangles, and counts are accurate

Two consequences of the invariant for the heaps that a mutator comes to. A node whose storage has
gone back is out of everyone's reach: nothing counts it, designates it or lists it. And between the
steps of the mutator a count that does not stick is the number of the holders of the node, so that
no reference is ever counted down too often.
-/

namespace HybridHeap

namespace Law

/-- The mutator promises no more than not to take down what it has not taken. -/
def honest : Law := { pinning := false, tidy := false }

/-- Besides, root sources ask for pinning and designate nodes that have storage, and none is
registered or changed while a destructor runs. -/
def sheltering : Law := { pinning := true, tidy := false }

/-- Besides, the mutator writes nothing around the storage of nodes. -/
def tidying : Law := { pinning := false, tidy := true }

end Law

namespace Heap

variable {h : Heap} {n m : NodeId}

/-- Nothing in the heap leads to a node. -/
structure Unreferenced (h : Heap) (n : NodeId) : Prop where
  payload : ∀ m p, h.payload? m = some p → n ∉ p.allEdges
  handle : ∀ x ∈ h.handles, n ∉ x.2.edges
  explicit : n ∉ h.roots.explicit.toList
  stack : n ∉ h.roots.stack
  protect : n ∉ h.roots.protect
  nodeStack : n ∉ h.roots.nodeStack
  external : ∀ s, some s ∈ h.roots.external → ∀ source, h.sources[s]? = some source →
    n ∉ source.nodes
  weakKey : ∀ e ∈ h.roots.weak.toList, e.key ≠ some n
  weakValue : ∀ e ∈ h.roots.weak.toList, e.value ≠ some n
  live : n ∉ h.rings.toList liveList
  reachable : n ∉ h.rings.toList reachableList
  moribund : n ∉ h.moribund

/-- A node without holders is on no edge of a payload. -/
theorem not_mem_allEdges (hn : h.payloadHolders n = 0) {p : Payload} (hp : h.payload? m = some p) :
    n ∉ p.allEdges := by
  have hle := h.count_edges_le m n
  have hedges : h.edges m = p.allEdges := by rw [h.edges_eq, hp]; rfl
  rw [hn, hedges] at hle
  exact List.count_eq_zero.1 (Nat.le_zero.1 hle)

/-- What is designated by a registered root source is among what registered root sources
designate. -/
theorem mem_sourced {s : SourceId} {source : RootSource} (hs : some s ∈ h.roots.external)
    (hsource : h.sources[s]? = some source) (hn : n ∈ source.nodes) : n ∈ h.sourced := by
  refine List.mem_flatMap.2 ⟨s, List.mem_filterMap.2 ⟨some s, Array.mem_toList_iff.2 hs, rfl⟩, ?_⟩
  rw [hsource]
  exact hn

end Heap

/-- Under the invariant nothing leads to a node without storage. -/
theorem Invariant.unreferenced {law : Law} {w : Juncture} {h : Heap} (inv : Invariant law w h)
    (hpinning : law.pinning = true) {n : NodeId} (hn : h.isAllocated n = false) :
    h.Unreferenced n := by
  have hdebts : h.payloadHolders n + h.handleHolders n + h.rootHolders n + h.weakHolders n +
      h.lostHolders n + w.pins.count n + w.flight.count n = 0 := inv.debts_eq_zero hn
  have habsent : ∀ {P : Prop}, (P → h.isAllocated n = true) → ¬P := fun hP hp => by
    rw [hP hp] at hn
    cases hn
  have huncounted : n ∉ h.uncounted law := habsent (inv.stacked n)
  have hstacked : n ∉ h.stackedRoots := fun hmem => huncounted (List.mem_append_left _ hmem)
  unfold Heap.stackedRoots at hstacked
  simp only [List.mem_append, not_or, Array.mem_toList_iff] at hstacked
  exact
    { payload := fun m p hp => Heap.not_mem_allEdges (by omega) hp
      handle := fun x hx hmem => by
        have hpos := Heap.handleHolders_pos hx hmem
        omega
      explicit := List.count_eq_zero.1 (show h.rootHolders n = 0 by omega)
      stack := hstacked.1.1
      protect := hstacked.1.2
      nodeStack := hstacked.2
      external := fun s hs source hsource hmem => by
        refine huncounted (List.mem_append_right _ ?_)
        rw [if_pos hpinning]
        exact Heap.mem_sourced hs hsource hmem
      weakKey := fun e he hkey => habsent (fun _ => (inv.weakKeys e he n hkey).1) trivial
      weakValue := fun e he hvalue => by
        have hpos := Heap.weakHolders_pos he hvalue
        omega
      live := habsent (inv.listed _ n)
      reachable := habsent (inv.listed _ n)
      moribund := habsent fun hmem => ((inv.mem_moribund n).1 hmem).1 }

namespace Mutator

open Act

variable {law : Law} {h k : Heap} {fuel depth : Nat}

/-- The heaps that a mutator comes to without a fatal error: those between its own steps, and those
at the steps of the destructors, finalizers and bodies of holds that run inside them. -/
def Visited (law : Law) (k : Heap) : Prop :=
  ∃ h, Reached law h ∧ (k = h ∨ ∃ fuel depth program, Sees law fuel depth program h k)

/-- Every heap that a mutator comes to satisfies the invariant. -/
theorem Visited.invariant (hk : Visited law k) : ∃ w, w.Whole ∧ Invariant law w k := by
  obtain ⟨h, hr, rfl | ⟨fuel, depth, program, hsees⟩⟩ := hk
  · exact ⟨.rest, Juncture.ready_rest, hr.invariant⟩
  · exact hsees.invariant hr

/-- A node whose storage has gone back is not referred to: no edge, root, weak reference or list
leads to it, between steps and inside destructors and finalizers. -/
theorem unreferenced_of_freed {n : NodeId} (hk : Visited .sheltering k)
    (hn : k.stage n = .freed) : k.Unreferenced n := by
  have hunallocated : k.isAllocated n = false := by
    unfold Heap.stage at hn
    unfold Heap.isAllocated
    rw [hn]
    rfl
  obtain ⟨w, -, inv⟩ := hk.invariant
  exact inv.unreferenced rfl hunallocated

/-- After a lite sweep has reclaimed a chain of two nodes nothing leads to the second. -/
theorem unreferenced_of_freed_chain :
    ∃ k, Visited .sheltering k ∧ k.stage 0 = .freed ∧ k.Unreferenced 0 := by
  have hplay : ((play .sheltering [.allocate .bare .link [] none,
      .allocate (.root "a") .link [0] none, .drop "a", .lite]).any
        fun k => k.stage 0 = .freed) = true := by
    decide +kernel
  obtain ⟨k, hk, hfreed⟩ := (Option.any_eq_true _ _).1 hplay
  have hvisited : Visited .sheltering k := ⟨k, reached_of_play hk, .inl rfl⟩
  have hstage : k.stage 0 = .freed := of_decide_eq_true hfreed
  exact ⟨k, hvisited, hstage, unreferenced_of_freed hvisited hstage⟩

/-- Between the steps of the mutator every count that does not stick is the number of holders, and
no step of the mutator counts a reference down too often. -/
theorem count_eq_holders (hr : Reached .honest h) :
    (∀ n, h.isAllocated n = true →
      (h.status n).isSaturated = true ∨ (h.status n).count = h.holders n) ∧
    ∀ fuel depth step e h',
      answer (.under .honest) (runNested (.under .honest) fuel depth) fuel step h = .error e h' →
      e.isUnderflow = false := by
  have inv := hr.invariant
  refine ⟨fun n _ => inv.count n, fun fuel depth step e h' hstep => ?_⟩
  have hterms := Terms.keep_under .honest
  have hanswer := answer_spec hterms (runNested_keeps hterms fuel depth) fuel Juncture.ready_rest
    inv step
  exact (hanswer.of_error hstep).1

/-- A node with an edge from a payload and an explicit root on it counts two holders. -/
theorem count_eq_holders_shared :
    ∃ h, Reached .honest h ∧ h.holders 0 = 2 ∧
      ((h.status 0).isSaturated = true ∨ (h.status 0).count = h.holders 0) := by
  have hplay : ((play .honest [.allocate (.root "a") .link [] none,
      .allocate .bare .link [0] none]).any
        fun k => k.isAllocated 0 = true ∧ k.holders 0 = 2) = true := by
    decide +kernel
  obtain ⟨h, hh, hnode⟩ := (Option.any_eq_true _ _).1 hplay
  obtain ⟨hallocated, hholders⟩ := of_decide_eq_true hnode
  have hr : Reached .honest h := reached_of_play hh
  exact ⟨h, hr, hholders, (count_eq_holders hr).1 0 hallocated⟩

end Mutator

end HybridHeap
