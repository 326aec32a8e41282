import HybridHeap.Proofs.Mutating

/-!
# Working on payloads keeps the invariant

Storing an edge in a payload takes a reference out of flight, and taking an edge out of one leaves a
reference in flight. Besides its edges nothing of a payload matters to the invariant.
-/

namespace HybridHeap

open Collector Act

variable {law : Law} {w : Juncture} {h : Heap} {n : NodeId}

namespace Heap

/-! Besides the payload itself nothing of a node is changed with it. -/

@[simp] theorem size_nodes_modifyPayload (h : Heap) (n : NodeId) (f : Payload → Payload) :
    (h.modifyPayload n f).nodes.size = h.nodes.size := size_nodes_modifyNode _ _ _

@[simp] theorem isAllocated_modifyPayload (h : Heap) (n : NodeId) (f : Payload → Payload) :
    (h.modifyPayload n f).isAllocated = h.isAllocated :=
  funext (isAllocated_modifyNode (fun _ => by rfl) h n)

@[simp] theorem status_modifyPayload (h : Heap) (n : NodeId) (f : Payload → Payload) :
    (h.modifyPayload n f).status = h.status :=
  funext (status_modifyNode (fun _ => by rfl) h n)

@[simp] theorem isDetached_modifyPayload (h : Heap) (n : NodeId) (f : Payload → Payload) :
    (h.modifyPayload n f).isDetached = h.isDetached := by
  unfold isDetached
  rw [status_modifyPayload]

@[simp] theorem kind_modifyPayload (h : Heap) (n : NodeId) (f : Payload → Payload) :
    (h.modifyPayload n f).kind = h.kind :=
  funext (kind_modifyNode (fun _ => by rfl) h n)

theorem payload?_modifyPayload (h : Heap) (n m : NodeId) (f : Payload → Payload) :
    (h.modifyPayload n f).payload? m =
      if m = n then (h.payload? m).map f else h.payload? m := by
  unfold modifyPayload payload?
  rw [getElem?_modifyNode]
  split_ifs
  · cases h.nodes[m]? <;> rfl
  · rfl

/-- Changing a payload changes the holders by what it changes of its edges. -/
theorem holders_modifyPayload {p : Payload} (hp : h.payload? n = some p) (f : Payload → Payload)
    (m : NodeId) : (h.modifyPayload n f).holders m + p.allEdges.count m =
      h.holders m + (f p).allEdges.count m := by
  have hlt : n < h.nodes.size := lt_size_of_payload (by simp [hp])
  have hadd := payloadHolders_modifyNode_add hlt
    (fun node => { node with payload := node.payload.map f }) m
  have hold : h.edges n = p.allEdges := by
    rw [edges_eq, hp]
    rfl
  have hnew : (h.modifyPayload n f).edges n = (f p).allEdges := by
    rw [edges_eq, payload?_modifyPayload, if_pos rfl, hp]
    rfl
  have hadd' : (h.modifyPayload n f).payloadHolders m + p.allEdges.count m =
      h.payloadHolders m + (f p).allEdges.count m := by
    rw [← hold, ← hnew]
    exact hadd
  show (h.modifyPayload n f).payloadHolders m + h.handleHolders m + h.rootHolders m +
    h.weakHolders m + h.lostHolders m + _ = _
  unfold holders
  omega

end Heap

/-- All edges of a payload are those at its places and the hidden ones. -/
theorem Payload.count_allEdges (p : Payload) (m : NodeId) :
    p.allEdges.count m = (p.places.filterMap id).count m + p.hidden.count m := by
  unfold allEdges edges
  exact List.count_append

/-- A payload may change if the edges that it gains were in flight before and those that it loses
are afterwards. -/
theorem Invariant.repay {f : Payload → Payload} (inv : Invariant law w h) (hn : n ∉ w.building)
    (flight : List NodeId)
    (hdebts : ∀ m, (h.modifyPayload n f).debts { w with flight } m = h.debts w m) :
    Invariant law { w with flight } (h.modifyPayload n f) := by
  have halloc := h.isAllocated_modifyPayload n f
  have hstatus := h.status_modifyPayload n f
  have hdet := h.isDetached_modifyPayload n f
  have hkind := h.kind_modifyPayload n f
  have hblock : (h.modifyPayload n f).block = h.block :=
    funext (Heap.block_modifyNode (fun _ => by rfl) h n)
  have hstage : (h.modifyPayload n f).stage = h.stage :=
    funext (Heap.stage_modifyNode (fun _ => by rfl) h n)
  have hfreed : (h.modifyPayload n f).freedCount = h.freedCount :=
    sum_modify_of_eq _ _ fun _ => by rfl
  have hpayload : ∀ m, ((h.modifyPayload n f).payload? m).isSome = (h.payload? m).isSome := by
    intro m
    rw [h.payload?_modifyPayload]
    split_ifs
    · exact Option.isSome_map
    · rfl
  have hnone : ∀ m, (h.modifyPayload n f).payload? m = none ↔ h.payload? m = none := fun m => by
    rw [← Option.not_isSome_iff_eq_none, hpayload, Option.not_isSome_iff_eq_none]
  -- No node gains or loses its payload, and what one payload holds has been accounted for.
  exact
    { inv with
      covered := fun m => by
        rw [hdebts, hstatus]
        exact inv.covered m
      grounded := fun m => by
        rw [hdebts, halloc]
        exact inv.grounded m
      mem_moribund := fun m => by
        rw [halloc, hstatus]
        exact inv.mem_moribund m
      size_nodes := inv.size_nodes.trans (h.size_nodes_modifyPayload n f).symm
      listed := by
        rw [halloc]
        exact inv.listed
      attached := by
        rw [halloc, hdet]
        exact inv.attached
      marked := by
        rw [hstatus]
        exact inv.marked
      settled := by
        rw [hstatus]
        exact inv.settled
      flips := by
        rw [hstage]
        exact inv.flips
      lagging := by
        unfold Heap.Lags Heap.readsMarked
        rw [halloc, hstatus]
        exact inv.lagging
      emptied := fun m hm ha => by
        rw [halloc] at ha
        rw [hdet, hnone]
        exact inv.emptied m hm ha
      dropping := by
        rw [halloc, hdet]
        exact inv.dropping
      kept := fun l hl => by
        have hkeeps : (h.modifyPayload n f).keeps = h.keeps :=
          Heap.keeps_eq_iff.2 ⟨rfl, fun m _ => congrFun hdet m⟩
        exact hkeeps.trans (inv.kept l hl)
      started := by
        rw [h.size_nodes_modifyPayload]
        exact inv.started
      timely := fun m hm => (inv.timely m hm).congr (h.size_nodes_modifyPayload n f) (hpayload m)
        (congrFun halloc m) rfl
      owned := fun m hm => by
        rw [hpayload] at hm
        rw [halloc]
        exact inv.owned m hm
      building := fun m hm => by
        rw [hstage, hpayload, hstatus]
        exact inv.building m hm
      planned := fun m kind p hp => by
        obtain ⟨hlt, hknown⟩ := inv.planned m kind p hp
        refine ⟨hlt.trans_eq (h.size_nodes_modifyPayload n f).symm, fun hm => ?_⟩
        rw [hkind, h.payload?_modifyPayload, if_neg (ne_of_mem_of_not_mem hm hn)]
        exact hknown hm
      stacked := by
        rw [halloc]
        exact inv.stacked
      weakKeys := by
        rw [halloc, hstatus]
        exact inv.weakKeys
      doomed := fun m hm => by
        unfold Heap.Doomed
        rw [halloc, hstatus]
        exact inv.doomed m hm
      backed := by
        rw [halloc, hblock, hkind]
        exact inv.backed
      bitmap := by
        rw [halloc, hblock]
        exact inv.bitmap
      apart := by
        rw [halloc, hblock]
        exact inv.apart
      bytes := inv.bytes.congr (sum_modify_of_eq _ _ fun _ => by rfl)
      nodeCount := inv.nodeCount.trans (sum_modify_of_eq _ _ fun _ => by rfl).symm
      current := by
        rw [hstage, hdet]
        exact inv.current
      accounts := by
        rw [hfreed]
        exact inv.accounts }

/-- Changing a payload puts what it loses in flight and takes what it gains out of flight. -/
theorem Invariant.change {p : Payload} {f : Payload → Payload} (gained lost : List NodeId)
    (inv : Invariant law (w.holding gained) h) (hn : n ∉ w.building)
    (hp : h.payload? n = some p)
    (hf : ∀ m, (f p).allEdges.count m + lost.count m = p.allEdges.count m + gained.count m) :
    Invariant law (w.holding lost) (h.modifyPayload n f) := by
  refine inv.repay hn (lost ++ w.flight) fun m => ?_
  have hholders := Heap.holders_modifyPayload hp f m
  have hm := hf m
  rw [Heap.debts_holding_append]
  show (h.modifyPayload n f).holders m + w.pins.count m + (lost ++ w.flight).count m =
    h.holders m + w.pins.count m + w.flight.count m + gained.count m
  rw [List.count_append]
  omega

/-- Changing something else than edges in a payload. -/
theorem Invariant.change_of_allEdges_eq {f : Payload → Payload} (inv : Invariant law w h)
    (hn : n ∉ w.building) (hf : ∀ p, (f p).allEdges = p.allEdges) :
    Invariant law w (h.modifyPayload n f) := by
  refine inv.repay hn w.flight fun m => ?_
  have hpayload : (h.modifyPayload n f).payloadHolders m = h.payloadHolders m := by
    refine sum_modify_of_eq h.nodes n fun node => ?_
    unfold Node.edges
    cases node.payload with
    | none => rfl
    | some p => exact congrArg (List.count m) (hf p)
  show (h.modifyPayload n f).payloadHolders m + h.handleHolders m + h.rootHolders m +
    h.weakHolders m + h.lostHolders m + w.pins.count m + w.flight.count m = _
  rw [hpayload]
  rfl

namespace Mutator

variable {law : Law} {w : Juncture} {h : Heap} {n : NodeId}

/-! ## Looking at payloads -/

/-- A payload that may not be used ends the run. -/
theorem requireAttached_spec {Q : Unit → Heap → Prop} (inv : Invariant law w h) (hQ : Q () h) :
    Leads (requireAttached n) h Q (Failed (Invariant law w) w.torn) := by
  unfold requireAttached
  simp only [leads_bind, leads_view]
  split
  · simp only [leads_bind, leads_view]
    exact leads_fatal_failed rfl fun _ => { inv with }
  · exact hQ

/-- A payload whose cell can be borrowed is there. -/
theorem borrow_spec {Q : Payload → Heap → Prop} (inv : Invariant law w h)
    (hQ : ∀ p, h.payload? n = some p → Q p h) :
    Leads (borrow n) h Q (Failed (Invariant law w) w.torn) := by
  unfold borrow
  simp only [leads_bind, leads_view]
  split
  · exact refuse_spec inv
  · rename_i p hp
    split
    · exact leads_throw.2 (.of_not_isFinal rfl inv)
    · exact hQ p hp

theorem look_spec (inv : Invariant law w h) :
    Leads (look n) h (fun _ => Invariant law w) (Failed (Invariant law w) w.torn) := by
  unfold look
  simp only [leads_bind, leads_pure]
  exact requireAttached_spec inv (borrow_spec inv fun _ _ => inv)

@[simp] theorem leads_change {f : Payload → Payload} {Q : Unit → Heap → Prop}
    {E : Failure → Heap → Prop} : Leads (change n f) h Q E ↔ Q () (h.modifyPayload n f) := Iff.rfl

/-! ## Storing edges -/

/-- A list with a node put into it. -/
theorem count_putInto {front : Bool} {n m : NodeId} {l : List NodeId} :
    (putInto front n l).count m = l.count m + [n].count m := by
  unfold putInto
  split
  · rw [← List.singleton_append, List.count_append, Nat.add_comm]
  · rw [List.count_append]

/-- The edges at places with one more put into them. -/
theorem filterMap_putInto {front : Bool} {n : NodeId} {places : List (Option NodeId)} :
    (putInto front (some n) places).filterMap id = putInto front n (places.filterMap id) := by
  cases front <;> simp [putInto, List.filterMap_append]

/-- Filling an empty place adds one edge. -/
theorem count_fillFirst? {n m : NodeId} {places places' : List (Option NodeId)}
    (hfill : fillFirst? n places = some places') :
    (places'.filterMap id).count m = (places.filterMap id).count m + [n].count m := by
  induction places generalizing places' with
  | nil => cases hfill
  | cons place rest ih =>
    cases place with
    | none =>
      cases hfill
      simp only [List.filterMap_cons, id, List.count_cons, List.count_nil]
      omega
    | some k =>
      obtain ⟨rest', hrest, rfl⟩ := Option.map_eq_some_iff.1 hfill
      have := ih hrest
      simp only [List.filterMap_cons, id, List.count_cons] at this ⊢
      omega

/-- The edges that are in flight before a payload is looked at are so after that fails. -/
theorem store_spec {target : NodeId} {hidden front : Bool}
    (inv : Invariant law (w.holding [target]) h) (hn : n ∉ w.building) :
    Leads (store n target hidden front) h (fun _ => Invariant law w)
      (Failed (Invariant law (w.holding [target])) w.torn) := by
  unfold store
  simp only [leads_bind, leads_view]
  split
  · -- A link drops the edge it is given and keeps another one that it takes itself.
    simp only [leads_bind, leads_view]
    split
    · simp only [leads_bind]
      exact refuse_spec inv
    · have htarget := inv.referable_of_debts_pos (n := target) (by
        rw [Heap.debts_holding, if_pos rfl]
        omega)
      simp only [leads_bind]
      refine (increment_spec inv htarget.allocated htarget.spared).leads ?_
      rintro _ h₁ ⟨inv₁, _⟩
      refine Leads.onFailure (R := Invariant law ((w.holding [target]).holding [target]))
        (borrow_spec inv₁ fun p hp => ?_) fun h₂ inv₂ => ?_
      · simp only [leads_change]
        have hstored : Invariant law ((w.holding [target]).holding p.edges)
            (h₁.modifyPayload n fun p => { p with places := [some target] }) := by
          refine inv₁.change [target] p.edges hn hp fun m => ?_
          rw [Payload.count_allEdges, Payload.count_allEdges]
          show [target].count m + p.hidden.count m + (p.places.filterMap id).count m = _
          omega
        refine (releaseAll_spec hstored).leads ?_
        rintro _ h₂ ⟨inv₂, _⟩
        exact (decrement_spec inv₂).leads fun _ _ hpost => hpost.1
      · exact (decrement_spec inv₂).leads fun _ _ hpost => hpost.1
  · simp only [leads_bind, leads_discard]
    refine borrow_spec inv fun p hp => ?_
    split
    · exact inv.change [target] [] hn hp fun m => by
        rw [Payload.count_allEdges, Payload.count_allEdges, List.count_nil]
        dsimp only
        rw [count_putInto]
        omega
    · exact inv.change [target] [] hn hp fun m => by
        rw [Payload.count_allEdges, Payload.count_allEdges, List.count_nil]
        dsimp only
        rw [filterMap_putInto, count_putInto]
        omega
  · simp only [leads_bind, leads_discard]
    refine borrow_spec inv fun p hp => ?_
    exact inv.change [target] [] hn hp fun m => by
      rw [Payload.count_allEdges, Payload.count_allEdges, List.count_nil]
      dsimp only
      rw [filterMap_putInto, count_putInto]
      omega
  · simp only [leads_bind]
    refine borrow_spec inv fun p hp => ?_
    split
    · rename_i places hplaces
      exact inv.change [target] [] hn hp fun m => by
        rw [Payload.count_allEdges, Payload.count_allEdges, List.count_nil]
        dsimp only
        rw [count_fillFirst? hplaces]
        omega
    · exact refuse_spec inv
  · exact refuse_spec inv

/-- Storing a new edge in a payload. -/
theorem link_spec {target : NodeId} {hidden front : Bool} (inv : Invariant law w h)
    (hn : n ∉ w.building) (htarget : h.Referable w target) :
    Leads (link n target hidden front) h (fun _ => Invariant law w)
      (Failed (Invariant law w) w.torn) := by
  unfold link
  simp only [leads_bind]
  refine requireAttached_spec inv ?_
  refine (increment_spec inv htarget.allocated htarget.spared).leads ?_
  rintro _ h₁ ⟨inv₁, _⟩
  exact Leads.onFailure (store_spec inv₁ hn) fun h₂ inv₂ =>
    (decrement_spec inv₂).leads fun _ _ hpost => hpost.1

/-! ## Taking edges out -/

/-- What is at a place of a list stands beside what is left after taking it out. -/
theorem perm_eraseIdx {α : Type} {l : List α} {i : Nat} {a : α} (ha : l[i]? = some a) :
    (a :: l.eraseIdx i).Perm l := by
  obtain ⟨hlt, rfl⟩ := List.getElem?_eq_some_iff.1 ha
  exact List.getElem_cons_eraseIdx_perm hlt

/-- Emptying a place takes its edge out. -/
theorem count_set_none (places : List (Option NodeId)) (place : Nat) (m : NodeId) :
    ((places.set place none).filterMap id).count m + (places[place]?).join.toList.count m =
      (places.filterMap id).count m := by
  induction places generalizing place with
  | nil => rfl
  | cons first rest ih =>
    cases place with
    | zero =>
      cases first with
      | none => rfl
      | some k =>
        simp only [List.set_cons_zero, List.filterMap_cons, id, List.getElem?_cons_zero,
          Option.join_some, Option.toList_some, List.count_cons, List.count_nil]
        omega
    | succ place =>
      have ih := ih place
      cases first with
      | none => simpa using ih
      | some k =>
        simp only [List.set_cons_succ, List.filterMap_cons, id, List.getElem?_cons_succ,
          List.count_cons] at ih ⊢
        omega

/-- What is taken out of a payload can be released. -/
theorem releaseAll_change_spec {p : Payload} {f : Payload → Payload} {lost : List NodeId}
    (inv : Invariant law w h) (hn : n ∉ w.building) (hp : h.payload? n = some p)
    (hf : ∀ m, (f p).allEdges.count m + lost.count m = p.allEdges.count m) :
    Returns (releaseAll lost) (h.modifyPayload n f) fun _ => Invariant law w :=
  (releaseAll_spec (inv.change [] lost hn hp hf)).mono fun _ _ hpost => hpost.1

/-- Taking an edge out of a payload. -/
theorem unlink_spec {place : Nat} {hidden : Bool} (inv : Invariant law w h)
    (hn : n ∉ w.building) :
    Leads (unlink n place hidden) h (fun _ => Invariant law w)
      (Failed (Invariant law w) w.torn) := by
  unfold unlink
  simp only [leads_bind, leads_view]
  refine requireAttached_spec inv ?_
  split
  · simp only [leads_bind]
    refine borrow_spec inv fun p hp => ?_
    split
    · split
      · exact refuse_spec inv
      · rename_i m hm
        simp only [leads_bind, leads_change, leads_pure]
        refine (decrement_spec (inv.change [] [m] hn hp fun k => ?_)).leads
          fun _ _ hpost => hpost.1
        have hcount := (perm_eraseIdx hm).count_eq k
        rw [List.count_cons] at hcount
        rw [Payload.count_allEdges, Payload.count_allEdges, List.count_nil, List.count_singleton]
        dsimp only
        omega
    · split
      · exact refuse_spec inv
      · rename_i m hm
        simp only [leads_bind, leads_change, leads_pure]
        refine (releaseAll_change_spec inv hn hp fun k => ?_).leads fun _ _ inv₁ => inv₁
        have hcount := ((perm_eraseIdx hm).filterMap id).count_eq k
        rw [Payload.count_allEdges, Payload.count_allEdges]
        dsimp only
        cases m with
        | none =>
          rw [List.filterMap_cons_none (id_eq none)] at hcount
          rw [Option.toList_none, List.count_nil]
          omega
        | some m =>
          rw [List.filterMap_cons_some (id_eq (some m)), List.count_cons] at hcount
          rw [Option.toList_some, List.count_singleton]
          omega
  · split
    · simp only [leads_bind]
      refine borrow_spec inv fun p hp => ?_
      simp only [leads_change, leads_pure]
      refine (releaseAll_change_spec inv hn hp fun k => ?_).leads fun _ _ inv₁ => inv₁
      have hset := count_set_none p.places place k
      rw [Payload.count_allEdges, Payload.count_allEdges]
      dsimp only
      omega
    · simp only [leads_bind]
      exact refuse_spec inv
  · exact refuse_spec inv

/-- Taking all edges out of a payload. -/
theorem clear_spec {hidden : Bool} (inv : Invariant law w h) (hn : n ∉ w.building) :
    Leads (clear n hidden) h (fun _ => Invariant law w) (Failed (Invariant law w) w.torn) := by
  have hplaces : ∀ {p : Payload} (places : List (Option NodeId)), h.payload? n = some p →
      places.filterMap id = [] →
      Leads (releaseAll p.edges) (h.modifyPayload n fun p => { p with places })
        (fun _ => Invariant law w) (Failed (Invariant law w) w.torn) := by
    intro p places hp hempty
    refine (releaseAll_change_spec inv hn hp fun k => ?_).leads fun _ _ inv₁ => inv₁
    rw [Payload.count_allEdges, Payload.count_allEdges]
    dsimp only
    rw [hempty, List.count_nil]
    unfold Payload.edges
    omega
  unfold clear
  simp only [leads_bind, leads_view]
  refine requireAttached_spec inv ?_
  split
  · exact refuse_spec inv
  · simp only [leads_bind]
    refine borrow_spec inv fun p hp => ?_
    split
    · simp only [leads_bind, leads_change]
      refine (releaseAll_change_spec inv hn hp fun k => ?_).leads fun _ _ inv₁ => inv₁
      rw [Payload.count_allEdges, Payload.count_allEdges]
      rfl
    · simp only [leads_bind, leads_change]
      exact hplaces [] hp rfl
  · simp only [leads_bind, leads_change]
    exact borrow_spec inv fun p hp => hplaces [] hp rfl
  · simp only [leads_bind, leads_change]
    exact borrow_spec inv fun p hp => hplaces _ hp (by simp)
  · exact refuse_spec inv

/-- Running a program while the payload of a node is held by a root and mutably borrowed. -/
theorem holding_spec {α : Type} {body : Act α} (inv : Invariant law w h) (hn : h.Referable w n)
    (hbody : ∀ slot h', Invariant law { w with rooted := (n, slot) :: w.rooted } h' →
      Leads body h' (fun _ => Invariant law { w with rooted := (n, slot) :: w.rooted })
        (Failed (Invariant law { w with rooted := (n, slot) :: w.rooted }) w.torn)) :
    Leads (holding n body) h (fun _ => Invariant law w) (Failed (Invariant law w) w.torn) := by
  unfold holding
  simp only [leads_bind]
  refine (newRoot_spec inv hn).leads fun slot h₁ inv₁ => ?_
  refine Leads.ensuring (Q := fun _ => Invariant law { w with rooted := (n, slot) :: w.rooted })
    (R := Invariant law { w with rooted := (n, slot) :: w.rooted }) ?_
    (fun _ h₂ inv₂ => (dropRoot_spec inv₂).leads fun _ _ inv₃ => inv₃)
    fun h₂ inv₂ => (dropRoot_spec inv₂).leads fun _ _ inv₃ => inv₃
  simp only [leads_bind, leads_view]
  refine requireAttached_spec inv₁ ?_
  split
  · simp only [leads_bind]
    exact refuse_spec inv₁
  · simp only [leads_bind, leads_discard, leads_change]
    refine borrow_spec inv₁ fun p hp => ?_
    have hset : ∀ h' borrowed, Invariant law { w with rooted := (n, slot) :: w.rooted } h' →
        Invariant law { w with rooted := (n, slot) :: w.rooted }
          (h'.modifyPayload n fun p => { p with borrowed }) := fun h' borrowed inv' =>
      inv'.change_of_allEdges_eq (inv.not_mem_building hn.allocated) fun _ => rfl
    exact Leads.ensuring (hbody slot _ (hset _ true inv₁)) (fun _ h₂ inv₂ => hset _ false inv₂)
      fun _ inv₂ => hset _ false inv₂

end Mutator

end HybridHeap
