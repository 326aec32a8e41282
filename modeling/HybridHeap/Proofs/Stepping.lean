import HybridHeap.Proofs.Payloads

/-!
# Every step keeps the invariant

One lemma for each operation that is left, and the theorem for all steps. A step is in keeping with
the law if it takes down no reference that was not taken, and breaks no promise of the law.
-/

namespace HybridHeap

open Collector Act

variable {law : Law} {w : Juncture} {h : Heap} {n : NodeId}

/-- Whether a step that the mutator may be about to perform is in keeping with the law. -/
def Law.allows (law : Law) (h : Heap) : Step → Bool
  | .underflow _ => false
  | .source _ nodes pins =>
    !law.pinning || (h.dying.isEmpty && pins && nodes.all h.isAllocated)
  | .designate _ nodes => !law.pinning || (h.dying.isEmpty && nodes.all h.isAllocated)
  | .poke _ _ _ => !law.tidy
  | _ => true

/-- What is written around the storage of nodes does not matter if it need not be intact. -/
theorem Invariant.poke (inv : Invariant law w h) (htidy : law.tidy = false) (b : Memory.BlockId)
    (offset : Int) (byte : UInt8) :
    Invariant law w (h.modifyMemory (·.poke b offset byte)) :=
  { inv with
    memory := inv.memory.poke b offset byte
    backed := fun m ha => by
      have hback := inv.backed m ha
      rw [htidy] at hback ⊢
      exact hback.poke b offset byte
    laid := inv.laid.poke b offset byte
    bitmap := fun m ha => by
      show (h.memory.poke b offset byte).isMarked _ = true
      rw [Memory.Allocator.isMarked_poke]
      exact inv.bitmap m ha
    bytes := by
      show w.Covers h.storageBytes (h.memory.poke b offset byte).bytesAllocated
      rw [Memory.Allocator.bytesAllocated_poke]
      exact inv.bytes }

/-- References in flight that are lost stay counted. -/
theorem Invariant.lose {count : Nat}
    (inv : Invariant law (w.holding (List.replicate count n)) h) :
    Invariant law w { h with lost := (.edge n, count) :: h.lost } := by
  have hdebts : ∀ m, Heap.debts { h with lost := (.edge n, count) :: h.lost } w m =
      h.debts (w.holding (List.replicate count n)) m := by
    intro m
    have hedges : (Handle.edge n).edges.count m = if n = m then 1 else 0 := by
      show [n].count m = _
      rw [List.count_singleton]
      simp
    rw [Heap.debts_holding_append, List.count_replicate]
    show h.payloadHolders m + h.handleHolders m + h.rootHolders m + h.weakHolders m +
      (((Handle.edge n, count) :: h.lost).map fun x => x.2 * x.1.edges.count m).sum +
      w.pins.count m + w.flight.count m = h.payloadHolders m + h.handleHolders m +
      h.rootHolders m + h.weakHolders m + h.lostHolders m + w.pins.count m + w.flight.count m + _
    simp only [List.map_cons, List.sum_cons, hedges, beq_iff_eq]
    unfold Heap.lostHolders
    split_ifs <;> omega
  -- What is lost is neither a root nor a weak reference.
  have hlost : ∀ {α : Type} (f : Handle → Option α), f (.edge n) = none →
      (Heap.lostHandles { h with lost := (.edge n, count) :: h.lost }).filterMap f =
        h.lostHandles.filterMap f := by
    intro α f hf
    show (List.replicate count (Handle.edge n) ++ h.lostHandles).filterMap f = _
    rw [List.filterMap_append, List.filterMap_replicate_of_none hf, List.nil_append]
  exact
    { inv with
      covered := fun m => by
        rw [hdebts]
        exact inv.covered m
      grounded := fun m => by
        rw [hdebts]
        exact inv.grounded m
      explicit := by
        unfold Heap.liveRoots
        rw [hlost Handle.root? rfl]
        exact inv.explicit
      weak := by
        unfold Heap.liveWeaks
        rw [hlost Handle.weakSlot? rfl]
        exact inv.weak
      inhibitors := by
        have hold : h.inhibitors = (h.handles.map fun x => x.2.guards).sum +
          (h.lost.map fun x => x.2 * x.1.guards).sum + w.guards := inv.inhibitors
        show h.inhibitors = (h.handles.map fun x => x.2.guards).sum +
          (((Handle.edge n, count) :: h.lost).map fun x => x.2 * x.1.guards).sum + w.guards
        simp only [List.map_cons, List.sum_cons]
        show _ = _ + (count * 0 + _) + _
        omega }

namespace Mutator

variable {run : Runner} {name : HandleName}

/-! ## Allocating -/

/-- Counting an edge that is about to be stored puts it in flight. -/
theorem countEdge_spec {holder : Kind} (inv : Invariant law w h) (hn : h.Referable w n) :
    Returns (countEdge holder n) h fun _ h' =>
      Invariant law (w.holding [n]) h' ∧ Restamped h h' := by
  unfold countEdge
  simp only [Returns, leads_bind]
  refine (increment_spec inv hn.allocated hn.spared).leads ?_
  rintro _ h₁ ⟨inv₁, hr₁⟩
  split
  · simp only [leads_bind]
    have ha : h₁.isAllocated n = true := by
      rw [hr₁.isAllocated]
      exact hn.allocated
    refine (increment_spec inv₁ ha hn.spared).leads ?_
    rintro _ h₂ ⟨inv₂, hr₂⟩
    exact (decrement_spec inv₂).leads fun _ h₃ hpost =>
      ⟨hpost.1, (hr₁.toRestamped.trans hr₂.toRestamped).trans hpost.2.toRestamped⟩
  · exact ⟨inv₁, hr₁.toRestamped⟩

/-- Counting several edges puts them in flight. -/
theorem forM_countEdge_spec {holder : Kind} {kids : List NodeId} (inv : Invariant law w h)
    (hkids : ∀ n ∈ kids, h.Referable w n) :
    Returns (kids.forM (countEdge holder)) h fun _ => Invariant law (w.holding kids) := by
  induction kids generalizing w h with
  | nil => exact inv
  | cons n kids ih =>
    rw [Returns, leads_forM_cons]
    refine (countEdge_spec inv (hkids n List.mem_cons_self)).leads ?_
    rintro _ h₁ ⟨inv₁, hr₁⟩
    have hrest : ∀ m ∈ kids, h₁.Referable (w.holding [n]) m := fun m hm => by
      have hm := hkids m (List.mem_cons_of_mem n hm)
      refine ⟨?_, hm.spared⟩
      rw [hr₁.isAllocated]
      exact hm.allocated
    refine (ih inv₁ hrest).mono fun _ h₂ inv₂ => ?_
    rw [← w.holding_append] at inv₂
    exact inv₂.holding_perm (List.perm_append_singleton n kids)

/-- Kids with which a payload can be built can be referred to. -/
theorem requireKids_spec {kind : Kind} {kids : List NodeId} {Q : Unit → Heap → Prop}
    (hready : w.Ready) (inv : Invariant law w h)
    (hQ : (∀ n ∈ kids, h.Referable w n) → Q () h) :
    Leads (requireKids kind kids) h Q (Failed (Invariant law w) w.torn) := by
  unfold requireKids
  simp only [leads_bind]
  refine forM_requireReferable_spec hready inv fun hkids => ?_
  have hkinds : ∀ kids : List NodeId,
      Leads (kids.forM fun kid => require fun h => h.kind kid == .link) h (fun _ h' => h' = h)
        (Failed (Invariant law w) w.torn) := by
    intro kids
    induction kids with
    | nil => rfl
    | cons kid kids ih =>
      rw [leads_forM_cons]
      exact require_spec inv fun _ => ih
  split
  · simp only [leads_bind]
    exact refuse_spec inv
  · split
    · exact (hkinds kids).imp fun _ h' heq => heq ▸ hQ hkids
    · exact hQ hkids

/-- The form in which an allocation is to be kept can be used, also after the allocation. -/
theorem requireForm_spec {form : AllocForm} {Q : Unit → Heap → Prop} (hready : w.Ready)
    (inv : Invariant law w h)
    (hQ : ((∃ name, form = .stackRoot name) → ∀ pins doomed, w.guard ≠ some (.lite pins doomed)) →
      Q () h) : Leads (requireForm form) h Q (Failed (Invariant law w) w.torn) := by
  cases form with
  | bare => exact hQ (by simp)
  | root name => exact require_spec inv fun _ => hQ (by simp)
  | edge name => exact require_spec inv fun _ => hQ (by simp)
  | stackRoot name =>
    unfold requireForm
    rw [leads_bind]
    exact requireNoDestructor_spec hready inv fun hlite _ =>
      require_spec inv fun _ => hQ fun _ => hlite

/-- Keeping a node that was just allocated. -/
theorem keepAs_spec {form : AllocForm} (inv : Invariant law w h) (hn : h.Referable w n)
    (hform : (∃ name, form = .stackRoot name) →
      ∀ pins doomed, w.guard ≠ some (.lite pins doomed)) :
    Returns (keepAs n form) h fun _ => Invariant law w := by
  cases form with
  | bare => exact inv
  | root name =>
    unfold keepAs
    simp only [Returns, leads_bind, leads_keep]
    exact (newRoot_spec inv hn).leads fun slot h₁ inv₁ =>
      invariant_keep (x := .root n slot) inv₁ rfl name
  | stackRoot name =>
    unfold keepAs
    simp only [Returns, leads_bind, leads_keep]
    exact (newStackRoot_spec inv ⟨hn.allocated, hform ⟨name, rfl⟩⟩).leads fun index h₁ inv₁ =>
      invariant_keep (x := .stackRoot n index) inv₁ rfl name
  | edge name =>
    unfold keepAs
    simp only [Returns, leads_bind, leads_keep]
    exact (increment_spec inv hn.allocated hn.spared).leads fun _ h₁ hpost =>
      invariant_keep (x := .edge n) hpost.1 rfl name

/-- The edges of a payload that is built with edges to some kids are edges to those. -/
theorem filterMap_placesFor (shape : Shape) (kids : List NodeId) :
    (placesFor shape kids).filterMap id = kids := by
  have hsome : (kids.map some).filterMap id = kids := by simp [List.filterMap_map]
  cases shape with
  | list => exact hsome
  | fixedList count => exact hsome
  | slots count =>
    unfold placesFor
    rw [List.filterMap_append, hsome]
    simp
  | fixedSlots count =>
    unfold placesFor
    rw [List.filterMap_append, hsome]
    simp

/-- Allocating a node and keeping it. -/
theorem allocate_spec (hrun : run.Keeps law w.torn w.scarred) {fuel : Nat} {form : AllocForm}
    {kind : Kind} {kids : List NodeId} {hook : Option Program} (hready : w.Ready)
    (inv : Invariant law w h) :
    Leads (allocate run fuel form kind kids hook) h (fun _ => Invariant law w)
      (Failed (Invariant law w) w.torn) := by
  unfold allocate
  simp only [leads_bind]
  refine requireForm_spec hready inv fun hform => ?_
  refine requireKids_spec hready inv fun hkids => ?_
  split
  · simp only [leads_bind]
    exact refuse_spec inv
  · simp only [leads_bind, leads_pure]
    refine (forM_countEdge_spec inv hkids).leads fun _ h₁ inv₁ => ?_
    have hedges : Payload.allEdges
        { places := placesFor kind.shape kids, hidden := [], tag := 0, borrowed := false, hook } =
        kids := by
      unfold Payload.allEdges Payload.edges
      rw [filterMap_placesFor, List.append_nil]
    rw [← hedges] at inv₁
    refine (Collector.allocate_spec hrun fuel hready kind inv₁).imp ?_
    rintro n h₂ ⟨inv₂, hn₂⟩
    exact (keepAs_spec inv₂ (inv₂.referable_of_mem_toList hn₂) hform).leads fun _ _ inv₃ => inv₃

/-! ## Inspecting -/

/-- Counting up changes the status of the node as counting it up does. -/
theorem increment_status (hn : n < h.nodes.size) :
    Leads (increment n) h (fun _ h' => h'.status n = (h.status n).increment.1)
      fun _ _ => True := by
  refine (increment_leads n).mono ?_ fun _ _ _ => trivial
  rintro _ _ rfl
  exact (Heap.status_setStatus_with hn _ _ n).trans (if_pos rfl)

/-- Taking edges to a node and losing them. -/
theorem leak_spec {count : Nat} (hready : w.Ready) (inv : Invariant law w h) :
    Leads (leak n count) h (fun _ => Invariant law w) (Failed (Invariant law w) w.torn) := by
  unfold leak
  simp only [leads_bind]
  refine require_spec inv fun hn => ?_
  have hn := inv.referable hready hn
  split
  · simp only [leads_bind]
    exact refuse_spec inv
  · split
    · rename_i hzero
      simp only [leads_bind, leads_view, leads_update]
      have hlt := Heap.lt_size_of_isAllocated hn.allocated
      refine ((increment_spec inv hn.allocated hn.spared).and (increment_status hlt)).mono
        ?_ fun _ _ he => he.1.elim
      rintro _ h₁ ⟨⟨inv₁, hr₁⟩, hs₁⟩
      have ha₁ : h₁.isAllocated n = true := by
        rw [hr₁.isAllocated]
        exact hn.allocated
      have hclear : (h₁.status n).isSaturated = true ∨
          (h₁.status n).contains .moribund = false := by
        rw [hs₁]
        cases hsat : (h.status n).isSaturated with
        | true =>
          rw [Status.increment_of_isSaturated hsat]
          exact .inl hsat
        | false =>
          rw [Status.contains_increment hsat]
          simp
      -- The first edge is counted as any other; the rest add to the status word at once, which no
      -- longer touches the queue.
      obtain ⟨hcount, hflags⟩ := Status.repeat_increment (h₁.status n) (count - 1) hclear
      refine Invariant.lose (inv₁.recount_node (q := h₁.moribund)
        (s := Nat.repeat (fun s => s.increment.1) (count - 1) (h₁.status n)) ha₁ hn.spared
        (fun f _ hf => hflags f hf) ?_ (fun m hm => ?_) inv₁.nodup_moribund (fun _ _ => .rfl) ?_)
      · obtain hsat | hdebts := inv₁.covered n
        · rw [Status.repeat_increment_of_isSaturated hsat]
          exact .inl hsat
        · refine hcount.imp_right fun hcount => ?_
          have hmore := h₁.debts_holding_append w (List.replicate count n) n
          rw [List.count_replicate_self] at hmore
          rw [h₁.debts_holding, if_pos rfl] at hdebts
          rw [hcount]
          refine (Juncture.covers_add_iff.2 hdebts).congr ?_
          show h₁.debts (w.holding (List.replicate count n)) n = _
          omega
      · have hmore := h₁.debts_holding_append w (List.replicate count n) m
        rw [List.count_replicate, if_neg (by simpa using Ne.symm hm), Nat.add_zero] at hmore
        rw [h₁.debts_holding, if_neg hm, Nat.add_zero]
        exact hmore
      · rw [hflags .moribund (by decide), inv₁.mem_moribund n, ha₁]
        simp
    · exact inv

/-- Counting down leaves the node with the status that counting it down has. -/
theorem decrement_status (hn : n < h.nodes.size) {s : Status} {outcome : Decrement}
    (hs : (h.status n).decrement? = some (s, outcome)) :
    Leads (decrement n) h (fun _ h' => h'.status n = s) fun _ _ => True := by
  refine (decrement_leads hs).leads ?_
  rintro _ _ rfl
  exact (Heap.status_setStatus_with hn _ _ n).trans (if_pos rfl)

/-- An edge to a node that has none, taken once and dropped twice, is found out. In a heap that may
be torn it changes nothing. -/
theorem dropTwice_spec (hw : w.torn = true) (hready : w.Ready) (inv : Invariant law w h) :
    Leads (dropTwice n) h (fun _ => Invariant law w) (Failed (Invariant law w) w.torn) := by
  unfold dropTwice
  simp only [leads_bind]
  refine require_spec inv fun hn => require_spec inv fun h0 => ?_
  have hn := inv.referable hready hn
  have hlt := Heap.lt_size_of_isAllocated hn.allocated
  have hsat : (h.status n).isSaturated = false :=
    Status.not_isSaturated_of_count_eq_zero (beq_iff_eq.1 h0)
  refine ((increment_spec inv hn.allocated hn.spared).and (increment_status hlt)).mono
    ?_ fun _ _ he => he.1.elim
  rintro _ h₁ ⟨⟨inv₁, hr₁⟩, hs₁⟩
  have hone : (h₁.status n).count = 1 := by
    rw [hs₁, Status.count_increment hsat, beq_iff_eq.1 h0]
  obtain ⟨s, outcome, hs, hcount, -⟩ := Status.decrement?_eq (s := h₁.status n)
    (by rw [Status.isSaturated_eq_false_iff, hone]; decide) (by omega)
  have hlt₁ : n < h₁.nodes.size := by
    rw [hr₁.size_nodes]
    exact hlt
  refine ((decrement_spec inv₁).and (decrement_status hlt₁ hs)).mono ?_ fun _ _ he => he.1.elim
  rintro _ h₂ ⟨⟨inv₂, -⟩, hs₂⟩
  have hnone : (h₂.status n).decrement? = none := by
    have hzero : (h₂.status n).count = 0 := by
      rw [hs₂]
      omega
    unfold Status.decrement?
    rw [Status.not_isSaturated_of_count_eq_zero hzero, if_neg Bool.false_ne_true, if_pos hzero]
  unfold decrement
  simp only [leads_bind, leads_view, hnone, leads_fatal]
  exact ⟨by rw [hw]; rfl, fun _ => { inv₂ with }⟩

theorem header_spec (inv : Invariant law w h) :
    Leads (header n) h (fun _ => Invariant law w) (Failed (Invariant law w) w.torn) := by
  unfold header
  simp only [leads_bind, leads_view]
  exact require_spec inv fun _ => inv

theorem markBit_spec (inv : Invariant law w h) :
    Leads (markBit n) h (fun _ => Invariant law w) (Failed (Invariant law w) w.torn) := by
  unfold markBit
  simp only [leads_bind, leads_view]
  exact require_spec inv fun _ => inv

theorem trace_spec (inv : Invariant law w h) :
    Leads (trace n) h (fun _ => Invariant law w) (Failed (Invariant law w) w.torn) := by
  unfold trace
  simp only [leads_bind, leads_view, leads_update, leads_pure]
  refine require_spec inv fun _ => ?_
  cases (traced h n).2 with
  | none => exact inv
  | some message => exact { inv with }

theorem queueNode_spec (hready : w.Ready) (inv : Invariant law w h) :
    Leads (queueNode n) h (fun _ => Invariant law w) (Failed (Invariant law w) w.torn) := by
  unfold queueNode
  rw [leads_bind]
  refine require_spec inv fun hn => ?_
  have hn := inv.referable hready hn
  exact (makeMoribund_spec inv hn.allocated hn.spared).leads fun _ _ hpost => hpost.1

theorem showPointer_spec (inv : Invariant law w h) :
    Leads (showPointer n) h (fun _ => Invariant law w) (Failed (Invariant law w) w.torn) := by
  unfold showPointer
  simp only [leads_bind, leads_view]
  exact require_spec inv fun _ => inv

theorem looks_spec {offset : Int} (inv : Invariant law w h) :
    Leads (looks n offset) h (fun _ => Invariant law w) (Failed (Invariant law w) w.torn) := by
  unfold looks
  simp only [leads_bind, leads_view]
  split
  · exact refuse_spec inv
  · exact inv

theorem poke_spec {offset : Int} {byte : UInt8} (inv : Invariant law w h)
    (htidy : law.tidy = false) :
    Leads (poke n offset byte) h (fun _ => Invariant law w) (Failed (Invariant law w) w.torn) := by
  unfold poke
  simp only [leads_bind, leads_view, leads_update]
  refine require_spec inv fun _ => ?_
  have htold : Invariant law w (h.modifyChronicle Chronicle.trespass) :=
    { inv with ledger := fun hintact => { inv.ledger hintact with } }
  exact htold.poke htidy _ _ _

theorem isKind_spec {kind : Kind} (inv : Invariant law w h) :
    Leads (isKind name kind) h (fun _ => Invariant law w) (Failed (Invariant law w) w.torn) := by
  unfold isKind
  simp only [leads_bind]
  refine handle_spec inv fun x _ => ?_
  split
  · exact inv
  · exact refuse_spec inv

theorem readNamed_spec (inv : Invariant law w h) :
    Leads (readNamed name) h (fun _ => Invariant law w) (Failed (Invariant law w) w.torn) := by
  unfold readNamed
  simp only [leads_bind]
  refine handle_spec inv fun x _ => ?_
  split
  · exact look_spec inv
  · exact look_spec inv
  · rw [leads_bind]
    exact requireRegistered_spec inv fun _ => look_spec inv
  · exact refuse_spec inv

theorem refcount_spec (inv : Invariant law w h) :
    Leads (refcount name) h (fun _ => Invariant law w) (Failed (Invariant law w) w.torn) := by
  unfold refcount
  simp only [leads_bind]
  refine handle_spec inv fun x _ => ?_
  split
  · exact inv
  · exact refuse_spec inv

theorem isSame_spec {a b : HandleName} (inv : Invariant law w h) :
    Leads (isSame a b) h (fun _ => Invariant law w) (Failed (Invariant law w) w.torn) := by
  unfold isSame
  simp only [leads_bind]
  refine handle_spec inv fun x _ => handle_spec inv fun y _ => ?_
  split
  · exact inv
  · exact inv
  · exact inv
  · exact refuse_spec inv

theorem weakNode_spec (inv : Invariant law w h) :
    Leads (weakNode name) h (fun _ => Invariant law w) (Failed (Invariant law w) w.torn) := by
  unfold weakNode
  simp only [leads_bind]
  exact weakSlot_spec inv fun _ => inv

theorem checked_spec (inv : Invariant law w h) : Returns checked h fun _ => Invariant law w := by
  show Invariant law w (noteVirgins h (Collector.check h))
  unfold noteVirgins
  split
  · split
    · exact inv
    · exact { inv with }
  · exact inv

theorem checkInvariants_spec (inv : Invariant law w h) :
    Returns checkInvariants h fun _ => Invariant law w := by
  unfold checkInvariants
  simp only [Returns, leads_bind]
  refine (checked_spec inv).leads fun result h₁ inv₁ => ?_
  split
  · exact inv₁
  · exact { inv₁ with }

/-! ## All steps -/

@[simp] theorem leads_silently {x : Act Unit} {Q : Reply → Heap → Prop}
    {E : Failure → Heap → Prop} :
    Leads (silently x) h Q E ↔ Leads x h (fun _ h' => Q .nothing h') E := by
  unfold silently
  simp only [leads_bind, leads_pure]

/-- A step of the mutator that is in keeping with the law keeps the invariant. In a heap that may be
torn, so does an edge that is dropped twice. -/
theorem perform_spec (hrun : run.Keeps law w.torn w.scarred) (fuel : Nat) (hready : w.Ready)
    (inv : Invariant law w h) {step : Step}
    (hlaw : w.torn = true ∧ (∃ n, step = .underflow n) ∨ law.allows h step = true) :
    Leads (perform run fuel step) h (fun _ => Invariant law w)
      (Failed (Invariant law w) w.torn) := by
  -- One specification for each step, in the order of its constructors; steps that only look remain
  -- for the end.
  cases step <;> unfold perform <;> simp only [leads_map, leads_bind, leads_silently, leads_view,
    leads_update, leads_pure]
  case allocate => exact allocate_spec hrun hready inv
  case edge => exact referTo_spec hready inv (takes_takeEdge inv)
  case erasedEdge => exact referTo_spec hready inv (takes_takeErased inv)
  case root => exact referTo_spec hready inv (takes_takeRoot inv)
  case stackRoot =>
    exact requireNoDestructor_spec hready inv fun hlite _ =>
      referTo_spec hready inv fun hn => takes_takeStackRoot inv ⟨hn.allocated, hlite⟩
  case edgeFrom => exact edgeFrom_spec inv
  case rootFrom => exact referToTarget_spec inv fun _ => takes_takeRoot inv
  case stackRootFrom =>
    exact requireNoDestructor_spec hready inv fun hlite _ =>
      referToTarget_spec inv fun _ hm => takes_takeStackRoot inv ⟨hm.allocated, hlite⟩
  case clone => exact copy_spec inv
  case erase => exact eraseKind_spec inv
  case downcast => exact downcast_spec inv
  case isKind => exact isKind_spec inv
  case drop => exact dropNamed_spec inv
  case forget => exact forget_spec inv
  case retarget => exact retarget_spec hready inv
  case read => exact readNamed_spec inv
  case refcount => exact refcount_spec inv
  case same => exact isSame_spec inv
  case link =>
    exact require_spec inv fun hn => require_spec inv fun htarget =>
      link_spec inv (inv.not_mem_building hn) (inv.referable hready htarget)
  case unlink => exact require_spec inv fun hn => unlink_spec inv (inv.not_mem_building hn)
  case clear => exact require_spec inv fun hn => clear_spec inv (inv.not_mem_building hn)
  case get => exact require_spec inv fun _ => look_spec inv
  case hold n body =>
    refine requireNoDestructor_spec hready inv fun _ _ => require_spec inv fun hn => ?_
    exact holding_spec inv (inv.referable hready hn) fun slot h' inv' =>
      (hrun { w with rooted := (n, slot) :: w.rooted } body h' rfl rfl
        { hready with idle := fun hnone => { hready.idle hnone with } } inv').mono
          (fun _ _ inv'' => inv'') fun _ _ he => he.mono fun hcut => hcut.2
  case header => exact header_spec inv
  case markBit => exact markBit_spec inv
  case trace => exact trace_spec inv
  case makeMoribund => exact queueNode_spec hready inv
  case underflow =>
    exact dropTwice_spec (hlaw.resolve_right fun hallowed => by cases hallowed).1 hready inv
  case leak => exact leak_spec hready inv
  case showHandle =>
    refine handle_spec inv fun x _ => ?_
    split
    · exact inv
    · exact refuse_spec inv
  case showNode => exact showPointer_spec inv
  case lite => exact runLiteSweep_spec hrun fuel hready inv
  case full => exact forceFullCollection_spec hrun fuel hready inv
  case finalize =>
    exact runFinalizers_spec hrun fuel 0 hready inv
  case inhibit name =>
    refine require_spec inv fun _ => ?_
    rw [leads_keep]
    exact Invariant.keep (x := .inhibitor) inv name
  case check =>
    refine (checked_spec inv).leads fun result h₁ inv₁ => ?_
    split
    · exact inv₁
    · exact inv₁
  case checkInvariants => exact (checkInvariants_spec inv).leads fun _ _ inv' => inv'
  case enable => exact { inv with }
  case verbose => exact { inv with }
  case setTrigger => exact { inv with floor := Nat.le_max_right _ _ }
  case protect => exact protect_spec hready inv
  case unprotect => exact unprotect_spec inv
  case reprotect => exact reprotect_spec hready inv
  case restoreProtect => exact restoreProtect_spec inv
  case push => exact push_spec hready inv
  case pop => exact (pop_spec inv).leads fun _ _ inv' => inv'
  case restoreStack => exact restoreStack_spec inv
  case snapshot => exact takeSnapshot_spec inv
  case restore => exact restore_spec inv
  case source nodes pins =>
    refine newSource_spec inv fun hpinning => ?_
    replace hlaw := hlaw.resolve_left fun hunder => by cases hunder.2.choose_spec
    simp only [Law.allows, hpinning, Bool.not_true, Bool.false_or, Bool.and_eq_true,
      List.all_eq_true] at hlaw
    exact ⟨hlaw.1.2, fun n hn => ⟨hlaw.2 n hn, inv.guard_ne_lite hready hlaw.1.1⟩⟩
  case designate nodes =>
    refine designate_spec inv fun hpinning n hn => ?_
    replace hlaw := hlaw.resolve_left fun hunder => by cases hunder.2.choose_spec
    simp only [Law.allows, hpinning, Bool.not_true, Bool.false_or, Bool.and_eq_true,
      List.all_eq_true] at hlaw
    exact ⟨hlaw.2 n hn, inv.guard_ne_lite hready hlaw.1⟩
  case unregister => exact unregister_spec inv
  case weak => exact newWeak_spec hready inv
  case weakNode => exact weakNode_spec inv
  case weakKey => exact weakEdge_spec inv fun _ _ => referable_of_weakKey? inv
  case weakValue => exact weakEdge_spec inv fun _ _ => referable_of_weakValue? inv
  case looks => exact looks_spec inv
  case poke =>
    refine poke_spec inv ?_
    simpa [Law.allows] using hlaw
  case senseless => exact refuse_spec inv
  all_goals exact inv

end Mutator

end HybridHeap
