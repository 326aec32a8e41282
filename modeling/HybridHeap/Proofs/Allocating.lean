import HybridHeap.Collector.Allocate
import HybridHeap.Proofs.Collecting

/-!
# Allocating keeps the invariant

A node is allocated in two moves: it is built around its payload, whose edges it holds from then on,
and it is equipped with storage. The collections that are due run in between, and find a node with a
payload that has no storage.
-/

namespace HybridHeap

open Collector Act

variable {law : Law} {w : Juncture} {h : Heap} {n : NodeId}

/-! ## Building a node -/

/-- A node that holds a payload and has no storage. -/
def Node.built (kind : Kind) (payload : Payload) : Node :=
  { kind, status := .fresh false, payload := some payload, block := 0, stage := .unborn }

namespace Heap

/-- The heap with a further node that holds a payload and has no storage. -/
def build (h : Heap) (kind : Kind) (payload : Payload) : Heap :=
  { h with
    nodes := h.nodes.push (.built kind payload)
    rings := h.rings.newNode }

variable (h) (kind : Kind) (payload : Payload)

theorem getElem?_build (m : NodeId) : (h.build kind payload).nodes[m]? =
    if m = h.nodes.size then some (.built kind payload) else h.nodes[m]? := Array.getElem?_push

/-- What the new node shows like one that is not there is the same everywhere. -/
theorem getD_build {α : Type} (p : Node → α) (a : α)
    (hp : p (.built kind payload) = a) (m : NodeId) :
    ((h.build kind payload).nodes[m]?.map p).getD a = (h.nodes[m]?.map p).getD a := by
  rw [getElem?_build]
  split_ifs with hm
  · rw [hm, Array.getElem?_eq_none (Nat.le_refl _)]
    exact hp
  · rfl

theorem stage_build : (h.build kind payload).stage = h.stage :=
  funext (getD_build h kind payload _ _ rfl)

theorem isAllocated_build : (h.build kind payload).isAllocated = h.isAllocated :=
  funext fun m => congrArg (· == Stage.allocated) (getD_build h kind payload _ _ rfl m)

theorem status_build : (h.build kind payload).status = h.status :=
  funext (getD_build h kind payload _ _ rfl)

theorem isDetached_build : (h.build kind payload).isDetached = h.isDetached := by
  unfold isDetached
  rw [status_build]

theorem block_build : (h.build kind payload).block = h.block :=
  funext (getD_build h kind payload _ _ rfl)

theorem kind_build {m : NodeId} (hm : m ≠ h.nodes.size) :
    (h.build kind payload).kind m = h.kind m := by
  unfold Heap.kind
  rw [getElem?_build, if_neg hm]

theorem payload?_build (m : NodeId) : (h.build kind payload).payload? m =
    if m = h.nodes.size then some payload else h.payload? m := by
  unfold payload?
  rw [getElem?_build]
  split_ifs <;> rfl

/-- A new node has not been freed. -/
theorem freedCount_build : (h.build kind payload).freedCount = h.freedCount :=
  sum_push h.nodes (.built kind payload) fun node => if node.stage = .freed then 1 else 0

/-- The edges of the payload of a new node are holders. -/
theorem holders_build (m : NodeId) :
    (h.build kind payload).holders m = h.holders m + payload.allEdges.count m := by
  have hpayload : (h.build kind payload).payloadHolders m =
      h.payloadHolders m + payload.allEdges.count m := sum_push _ _ _
  show (h.build kind payload).payloadHolders m + h.handleHolders m + h.rootHolders m +
    h.weakHolders m + h.lostHolders m = _
  rw [hpayload]
  unfold holders
  omega

end Heap

/-- Building a node around a payload takes the payload's edges out of flight. -/
theorem Invariant.build {payload : Payload} (inv : Invariant law (w.holding payload.allEdges) h)
    (kind : Kind) : Invariant law { w with building := h.nodes.size :: w.building }
      (h.build kind payload) := by
  have hdebts : ∀ m, (h.build kind payload).debts
      { w with building := h.nodes.size :: w.building } m =
      h.debts (w.holding payload.allEdges) m := by
    intro m
    have hbuild := h.holders_build kind payload m
    rw [Heap.debts_holding_append]
    show (h.build kind payload).holders m + w.pins.count m + w.flight.count m =
      h.holders m + w.pins.count m + w.flight.count m + payload.allEdges.count m
    omega
  have hne : ∀ m, h.isAllocated m = true → m ≠ h.nodes.size := fun m hm =>
    Nat.ne_of_lt (Heap.lt_size_of_isAllocated hm)
  have hlist := inv.rings.toList_newNode
  have hsize : (h.build kind payload).nodes.size = h.nodes.size + 1 := Array.size_push _
  have halloc := h.isAllocated_build kind payload
  have hstatus := h.status_build kind payload
  have hdet := h.isDetached_build kind payload
  have hblock := h.block_build kind payload
  -- The new node has no storage and is on no list. Only what is said of payloads concerns it, and
  -- its edges were in flight before.
  exact
    { inv with
      covered := fun m => by
        rw [hdebts, hstatus]
        exact inv.covered m
      grounded := fun m => by
        rw [hdebts, halloc]
        exact inv.grounded m
      mem_moribund := fun m => by
        rw [halloc, hstatus]
        exact inv.mem_moribund m
      rings := inv.rings.newNode
      size_nodes := by
        show (h.rings.nodes.push _).size = (h.nodes.push _).size
        rw [Array.size_push, Array.size_push, inv.size_nodes]
      listed := fun l m hm => by
        rw [halloc]
        exact inv.listed l m (hlist ▸ hm)
      attached := fun m hm ha hd => by
        rw [halloc] at ha
        rw [hdet] at hd
        show m ∈ h.rings.newNode.toList _ ∨ m ∈ h.rings.newNode.toList _
        rw [hlist]
        exact inv.attached m hm ha hd
      marked := fun hs m hm => by
        rw [hstatus]
        exact inv.marked hs m (hlist ▸ hm)
      settled := fun hs hw => by
        show h.rings.newNode.toList _ = [] ∧ ∀ m ∈ h.rings.newNode.toList _, _
        rw [hlist, hstatus]
        exact inv.settled hs hw
      flips := by
        rw [h.stage_build]
        exact inv.flips
      lagging := by
        unfold Heap.Lags Heap.readsMarked
        show _ → ∀ l, _ → ∀ m, _ → _ → m ∉ h.rings.newNode.toList l → _
        rw [halloc, hstatus, hlist]
        exact inv.lagging
      emptied := fun m hm ha => by
        rw [halloc] at ha
        rw [hdet, h.payload?_build, if_neg (hne m ha)]
        exact inv.emptied m hm ha
      dropping := fun m hm => by
        rw [halloc, hdet]
        exact inv.dropping m hm
      kept := fun l hl => by
        have hkeeps : (h.build kind payload).keeps = h.keeps :=
          Heap.keeps_eq_iff.2 ⟨congrFun hlist _, fun m _ => congrFun hdet m⟩
        exact hkeeps.trans (inv.kept l hl)
      started := fun m hm => by
        rw [hsize]
        obtain ⟨hlt, hfates⟩ := inv.started m hm
        exact ⟨Nat.lt_succ_of_lt hlt, hfates⟩
      timely := fun m hm => by
        obtain ⟨last, hlast, htimely⟩ := inv.timely m hm
        have hpayload := h.payload?_build kind payload m
        refine ⟨last, hlast, fun hge => htimely.absent ?_, fun hsome => ?_, fun hnone ha => ?_,
          htimely.ordered⟩
        · rw [hsize] at hge
          omega
        · rw [hpayload] at hsome
          split_ifs at hsome with hmn
          · exact htimely.absent hmn.ge
          · exact htimely.whole hsome
        · rw [halloc] at ha
          rw [hpayload, if_neg (hne m ha)] at hnone
          exact htimely.bare hnone ha
      owned := fun m hm => by
        rw [h.payload?_build] at hm
        rw [halloc]
        split_ifs at hm with hmn
        · exact .inr (List.mem_cons.2 (.inl hmn))
        · exact (inv.owned m hm).imp_right (List.mem_cons_of_mem _)
      building := fun m hm => by
        rw [h.stage_build, h.payload?_build, hstatus]
        obtain rfl | hm := List.mem_cons.1 hm
        · have hnone : h.nodes[h.nodes.size]? = none := Array.getElem?_eq_none (Nat.le_refl _)
          refine ⟨?_, by simp, ?_⟩
          · unfold Heap.stage
            rw [hnone]
            rfl
          · unfold Heap.status
            rw [hnone]
            rfl
        · obtain ⟨hstage, hpayload, hfresh⟩ := inv.building m hm
          refine ⟨hstage, ?_, hfresh⟩
          split_ifs
          · rfl
          · exact hpayload
      planned := fun m kind p hp => by
        obtain ⟨hlt, hknown⟩ := inv.planned m kind p hp
        refine ⟨hlt.trans (hsize ▸ Nat.lt_succ_self _), fun hm => ?_⟩
        rw [h.kind_build _ _ hlt.ne, h.payload?_build, if_neg hlt.ne]
        exact hknown ((List.mem_cons.1 hm).resolve_left hlt.ne)
      stacked := fun m hm => by
        rw [halloc]
        exact inv.stacked m hm
      weakKeys := fun e he key hkey => by
        rw [halloc, hstatus]
        exact inv.weakKeys e he key hkey
      doomed := fun m hm => by
        have hold := inv.doomed m hm
        refine ⟨?_, ?_, hold.unqueued, fun l hl => hold.unlisted l (hlist ▸ hl), hold.unkeyed⟩
        · rw [halloc]
          exact hold.allocated
        · rw [hstatus]
          exact hold.count
      backed := fun m ha => by
        rw [halloc] at ha
        rw [hblock, h.kind_build kind payload (hne m ha)]
        exact inv.backed m ha
      bitmap := fun m ha => by
        rw [halloc] at ha
        rw [hblock]
        exact inv.bitmap m ha
      apart := fun m k => by
        rw [halloc, hblock]
        exact inv.apart m k
      bytes := inv.bytes.congr (sum_push h.nodes (.built kind payload)
        fun node => if node.stage = .allocated then node.kind.size else 0)
      nodeCount := inv.nodeCount.trans (sum_push h.nodes (.built kind payload)
        fun node => if node.stage = .allocated then 1 else 0).symm
      current := by
        rw [h.stage_build, hdet]
        exact inv.current
      deaths := fun hw => (inv.deaths hw).change fun m hm => by
        show _ ∨ Due w.loose w.dropping w.kept (h.rings.newNode.toList liveList) m
        rw [hlist]
        exact .inr hm
      accounts := by
        rw [h.freedCount_build]
        exact inv.accounts }

/-! ## Equipping a node -/

namespace Heap

/-- The heap with a built node equipped with storage and put on the live list. -/
def equip (h : Heap) (n : NodeId) (base : Memory.Address) : Heap :=
  { h.modifyNode n fun node =>
      { node with
        status := .fresh h.cycle, block := h.memory.store.blocks.size, stage := .allocated } with
    memory := (h.memory.push base (h.kind n).size).setMark h.memory.store.blocks.size
    rings := h.rings.pushBack liveList n
    nodeCount := h.nodeCount + 1
    chronicle := h.chronicle.reach (h.memory.push base (h.kind n).size).bytesAllocated }

variable {h : Heap} {n : NodeId} (base : Memory.Address)

/-- What an equipped node shows, and the others. -/
theorem getD_equip {α : Type} (hn : n < h.nodes.size) (p : Node → α) (a b : α)
    (hp : ∀ node : Node, p { node with
      status := .fresh h.cycle, block := h.memory.store.blocks.size, stage := .allocated } = b)
    (m : NodeId) : ((h.equip n base).nodes[m]?.map p).getD a =
      if m = n then b else (h.nodes[m]?.map p).getD a := by
  show ((h.modifyNode n _).nodes[m]?.map p).getD a = _
  rw [getElem?_modifyNode]
  split_ifs with hmn
  · rw [hmn, Array.getElem?_eq_getElem hn]
    exact hp _
  · rfl

theorem stage_equip (hn : n < h.nodes.size) (m : NodeId) :
    (h.equip n base).stage m = if m = n then .allocated else h.stage m :=
  getD_equip base hn _ _ _ (fun _ => rfl) m

theorem isAllocated_equip (hn : n < h.nodes.size) (m : NodeId) :
    (h.equip n base).isAllocated m = if m = n then true else h.isAllocated m := by
  have hstage := stage_equip base hn m
  rw [Bool.eq_iff_iff, isAllocated_iff, hstage]
  split_ifs
  · simp
  · exact isAllocated_iff.symm

theorem status_equip (hn : n < h.nodes.size) (m : NodeId) :
    (h.equip n base).status m = if m = n then .fresh h.cycle else h.status m :=
  getD_equip base hn _ _ _ (fun _ => rfl) m

theorem block_equip (hn : n < h.nodes.size) (m : NodeId) :
    (h.equip n base).block m = if m = n then h.memory.store.blocks.size else h.block m :=
  getD_equip base hn _ _ _ (fun _ => rfl) m

theorem kind_equip (m : NodeId) : (h.equip n base).kind m = h.kind m :=
  kind_modifyNode (fun _ => by rfl) h n m

theorem payload?_equip (m : NodeId) : (h.equip n base).payload? m = h.payload? m :=
  payload?_modifyNode (fun _ => by rfl) h n m

theorem holders_equip (m : NodeId) : (h.equip n base).holders m = h.holders m := by
  have hpayload : (h.equip n base).payloadHolders m = h.payloadHolders m :=
    payloadHolders_modifyNode h n m fun _ => by rfl
  show (h.equip n base).payloadHolders m + _ + _ + _ + _ = _
  rw [hpayload]
  rfl

/-- What is counted over the nodes with storage gains what is counted of the node. -/
theorem sum_equip (hn : n < h.nodes.size) (hstage : h.stage n = .unborn) (g : Node → Nat)
    (hg : ∀ node : Node, node.stage = .unborn → g node = 0) {a : Nat}
    (ha : ∀ node, h.nodes[n]? = some node → g { node with
      status := .fresh h.cycle, block := h.memory.store.blocks.size, stage := .allocated } = a) :
    ((h.equip n base).nodes.toList.map g).sum = (h.nodes.toList.map g).sum + a := by
  obtain ⟨node, hnode⟩ : ∃ node, h.nodes[n]? = some node := ⟨_, Array.getElem?_eq_getElem hn⟩
  have hunborn : node.stage = .unborn := by
    unfold Heap.stage at hstage
    rw [hnode] at hstage
    exact hstage
  have hsum := sum_modify hnode (fun node => { node with
    status := .fresh h.cycle, block := h.memory.store.blocks.size, stage := .allocated }) g
  rw [hg node hunborn, ha node hnode] at hsum
  exact hsum

/-- The bytes of a node that is equipped are owed. -/
theorem storageBytes_equip (hn : n < h.nodes.size) (hstage : h.stage n = .unborn) :
    (h.equip n base).storageBytes = h.storageBytes + (h.kind n).size :=
  sum_equip base hn hstage _ (fun node hunborn => if_neg (by rw [hunborn]; decide))
    fun node hnode => by
      unfold kind
      rw [hnode]
      rfl

/-- A node that is equipped counts. -/
theorem allocatedCount_equip (hn : n < h.nodes.size) (hstage : h.stage n = .unborn) :
    (h.equip n base).allocatedCount = h.allocatedCount + 1 :=
  sum_equip base hn hstage _ (fun node hunborn => if_neg (by rw [hunborn]; decide))
    fun _ _ => rfl

/-- A node that is equipped has not been freed. -/
theorem freedCount_equip (hn : n < h.nodes.size) (hstage : h.stage n = .unborn) :
    (h.equip n base).freedCount = h.freedCount :=
  sum_equip base hn hstage (fun node => if node.stage = .freed then 1 else 0)
    (fun node hunborn => if_neg (by rw [hunborn]; decide)) fun _ _ => rfl

end Heap

/-- An equipped node is put on the live list. -/
theorem Invariant.toList_equip (inv : Invariant law w h) (hn : n < h.nodes.size)
    (hout : h.isAllocated n = false) (base : Memory.Address) (l : ListId) :
    (h.equip n base).rings.toList l =
      if l = liveList then h.rings.toList l ++ [n] else h.rings.toList l := by
  have hunlisted : n ∉ h.rings.toList l := fun hl => by
    rw [inv.listed l n hl] at hout
    cases hout
  show (h.rings.pushBack liveList n).toList l = _
  rw [inv.rings.toList_pushBack (by rwa [inv.size_nodes]) (by rw [inv.size_sentinels]; decide),
    List.erase_of_not_mem hunlisted]

/-- A node that is being built is there and has no storage. -/
theorem Invariant.unborn_of_building (inv : Invariant law w h) (hn : n ∈ w.building) :
    n < h.nodes.size ∧ h.isAllocated n = false := by
  obtain ⟨hstage, hpayload, -⟩ := inv.building n hn
  refine ⟨Heap.lt_size_of_payload hpayload, ?_⟩
  rw [← Bool.not_eq_true, Heap.isAllocated_iff, hstage]
  decide

/-- Equipping a built node with storage keeps the invariant. -/
theorem Invariant.equip (inv : Invariant law { w with building := n :: w.building } h)
    (hn : n ∉ w.building) {base : Memory.Address}
    (hbase : h.memory.admit? (h.kind n).size = some base) : Invariant law w (h.equip n base) := by
  obtain ⟨hstage, hpayload, hfresh⟩ := inv.building n List.mem_cons_self
  obtain ⟨hlt, hout⟩ := inv.unborn_of_building (n := n) List.mem_cons_self
  have hne : ∀ m, h.isAllocated m = true → m ≠ n := by
    rintro m hm rfl
    rw [hout] at hm
    cases hm
  have halloc := Heap.isAllocated_equip base hlt
  have hsize : (h.equip n base).nodes.size = h.nodes.size := Heap.size_nodes_modifyNode _ _ _
  have hkept : ∀ m, h.isAllocated m = true → (h.equip n base).isAllocated m = true := fun m hm => by
    rw [halloc, if_neg (hne m hm), hm]
  have hold : ∀ m, m ≠ n → (h.equip n base).isAllocated m = true → h.isAllocated m = true :=
    fun m hmn hm => by rwa [halloc, if_neg hmn] at hm
  have hstatus := Heap.status_equip base hlt
  have hdet : ∀ m, m ≠ n → (h.equip n base).isDetached m = h.isDetached m := fun m hmn => by
    unfold Heap.isDetached
    rw [hstatus, if_neg hmn]
  have hblock := Heap.block_equip base hlt
  have hkind : (h.equip n base).kind = h.kind := funext (Heap.kind_equip base)
  have hdebts : ∀ m, (h.equip n base).debts w m =
      h.debts { w with building := n :: w.building } m := fun m =>
    congrArg (· + w.pins.count m + w.flight.count m) (Heap.holders_equip base m)
  have hlist := inv.toList_equip hlt hout base
  have hmem : ∀ k m, m ∈ (h.equip n base).rings.toList k →
      m ∈ h.rings.toList k ∨ m = n ∧ k = liveList := by
    intro k m hm
    rw [hlist] at hm
    split_ifs at hm with hk
    · exact (List.mem_append.1 hm).imp_right fun hm => ⟨List.mem_singleton.1 hm, hk⟩
    · exact .inl hm
  exact
    { inv with
      covered := fun m => by
        rw [hdebts, hstatus]
        split_ifs with hmn
        · rw [hmn, inv.debts_eq_zero hout, Status.count_fresh]
          exact .inr (.of_eq rfl)
        · exact inv.covered m
      grounded := fun m hm => hkept m (inv.grounded m (hdebts m ▸ hm))
      mem_moribund := fun m => by
        rw [halloc, hstatus]
        split_ifs with hmn
        · refine iff_of_false (fun hq => ?_) (by simp)
          exact hne m ((inv.mem_moribund m).1 hq).1 hmn
        · exact inv.mem_moribund m
      rings := inv.rings.pushBack (by rwa [inv.size_nodes]) (by rw [inv.size_sentinels]; decide)
      size_sentinels := (Rings.size_sentinels_pushBack _ _ _).trans inv.size_sentinels
      size_nodes := (Rings.size_nodes_pushBack _ _ _).trans
        (inv.size_nodes.trans (Heap.size_nodes_modifyNode _ _ _).symm)
      listed := fun k m hm => by
        obtain hm | ⟨rfl, -⟩ := hmem k m hm
        · exact hkept m (inv.listed k m hm)
        · rw [halloc, if_pos rfl]
      attached := fun m hm ha hd => by
        rw [hlist, hlist, if_pos rfl, if_neg (by decide), List.mem_append, List.mem_singleton]
        by_cases hmn : m = n
        · exact .inl (.inr hmn)
        · rw [hdet m hmn] at hd
          exact (inv.attached m hm (hold m hmn ha) hd).imp_left .inl
      marked := fun hs m hm => by
        obtain hm | ⟨-, hk⟩ := hmem _ m hm
        · rw [hstatus, if_neg (hne m (inv.listed _ m hm))]
          exact inv.marked hs m hm
        · exact absurd hk (by decide)
      settled := fun hs hw => by
        obtain ⟨hempty, hlive⟩ := inv.settled hs hw
        refine ⟨?_, fun m hm => ?_⟩
        · rw [hlist, if_neg (by decide), hempty]
        · rw [hstatus]
          show _ = h.cycle
          obtain hm | ⟨rfl, -⟩ := hmem _ m hm
          · rw [if_neg (hne m (inv.listed _ m hm))]
            exact hlive m hm
          · rw [if_pos rfl, Status.contains_fresh]
            simp
      flips := fun hs => (inv.flips hs).imp_right fun hborn m hm => by
        rw [Heap.stage_equip base hlt]
        split_ifs
        · exact fun hunborn => by cases hunborn
        · exact hborn m hm
      lagging := fun hs k hk m hm ha hunlisted => by
        unfold Heap.readsMarked
        rw [hstatus]
        split_ifs with hmn
        · -- A new node is marked, and was not there at the last flip.
          subst hmn
          refine iff_of_false ?_ fun hmem => (inv.flips hs).2 m hmem hstage
          rw [Status.contains_fresh]
          simp [show (h.equip m base).cycle = h.cycle from rfl]
        · refine inv.lagging hs k hk m hm (hold m hmn ha) fun hmem => hunlisted ?_
          rw [hlist]
          split_ifs
          · exact List.mem_append_left _ hmem
          · exact hmem
      emptied := fun m hm ha => by
        rw [Heap.payload?_equip]
        by_cases hmn : m = n
        · subst hmn
          unfold Heap.isDetached
          rw [hstatus, if_pos rfl]
          refine iff_of_false (by simp) fun hnone => ?_
          rw [hnone] at hpayload
          cases hpayload
        · rw [hdet m hmn]
          exact inv.emptied m hm (hold m hmn ha)
      dropping := fun m hm => by
        obtain ⟨ha, hd⟩ := inv.dropping m hm
        rw [hdet m (hne m ha)]
        exact ⟨hkept m ha, hd⟩
      kept := fun l hl => by
        have hkeeps : (h.equip n base).keeps = h.keeps := by
          refine Heap.keeps_eq_iff.2 ⟨(hlist _).trans (if_neg (by decide)), fun m hm => hdet m ?_⟩
          exact hne m (inv.listed _ m hm)
        exact hkeeps.trans (inv.kept l hl)
      started := fun m hm => by
        obtain ⟨hlt', hfates⟩ := inv.started m hm
        exact ⟨hsize.symm ▸ hlt', hfates⟩
      timely := fun m hm => by
        have hpayload' := Heap.payload?_equip (h := h) (n := n) base m
        refine (inv.timely m hm).of_le rfl (fun hge => hsize ▸ hge) (fun hsome => hpayload' ▸ hsome)
          fun hnone ha => ?_
        rw [hpayload'] at hnone
        refine ⟨hnone, hold m ?_ ha⟩
        rintro rfl
        rw [hnone] at hpayload
        cases hpayload
      owned := fun m hm => by
        rw [Heap.payload?_equip] at hm
        obtain ha | hb := inv.owned m hm
        · exact .inl (hkept m ha)
        · obtain rfl | hb := List.mem_cons.1 hb
          · rw [halloc, if_pos rfl]
            exact .inl rfl
          · exact .inr hb
      building := fun m hm => by
        have hmn : m ≠ n := fun hmn => hn (hmn ▸ hm)
        rw [Heap.stage_equip base hlt, if_neg hmn, Heap.payload?_equip, hstatus, if_neg hmn]
        exact inv.building m (List.mem_cons_of_mem n hm)
      planned := fun m kind p hp => by
        rw [hsize, hkind, Heap.payload?_equip]
        exact (inv.planned m kind p hp).imp_right fun hknown hm =>
          hknown (List.mem_cons_of_mem n hm)
      stacked := fun m hm => hkept m (inv.stacked m hm)
      weakKeys := fun e he key hkey => by
        obtain ⟨ha, hflag⟩ := inv.weakKeys e he key hkey
        rw [hstatus, if_neg (hne key ha)]
        exact ⟨hkept key ha, hflag⟩
      doomed := fun m hm => by
        have hd := inv.doomed m hm
        have hmn := hne m hd.allocated
        refine ⟨hkept m hd.allocated, ?_, hd.unqueued, fun l hl => ?_, hd.unkeyed⟩
        · rw [hstatus, if_neg hmn]
          exact hd.count
        · obtain hl | ⟨hl, -⟩ := hmem l m hl
          · exact hd.unlisted l hl
          · exact hmn hl
      memory := (inv.memory.push _ _).setMark _
      laid := (inv.laid.push hbase).setMark _
      backed := fun m ha => by
        rw [hblock, hkind]
        split_ifs with hmn
        · subst hmn
          exact (Memory.Allocator.backs_push inv.memory _ _ (h.kind m).size_pos).setMark _
        · exact ((inv.backed m (hold m hmn ha)).push _ _).setMark _
      bitmap := fun m ha => by
        show ((h.memory.push base _).setMark _).isMarked _ = true
        rw [hblock, Memory.Allocator.isMarked_setMark]
        by_cases hmn : m = n
        · rw [if_pos hmn, if_pos rfl]
          exact (Memory.Allocator.backs_push inv.memory false base (h.kind n).size_pos).isLive
        · have hlast := (inv.backed m (hold m hmn ha)).lt_size
          rw [if_neg hmn, if_neg (Nat.ne_of_lt hlast), Memory.Allocator.isMarked_push base _ hlast]
          exact inv.bitmap m (hold m hmn ha)
      apart := fun m k hm hk hmk => by
        -- The new block is none of those that were there before.
        have hlast : ∀ j, h.isAllocated j = true → h.block j ≠ h.memory.store.blocks.size :=
          fun j hj => Nat.ne_of_lt (inv.backed j hj).lt_size
        rw [hblock, hblock] at hmk
        split_ifs at hmk with hmn hkn hkn
        · rw [hmn, hkn]
        · exact absurd hmk.symm (hlast k (hold k hkn hk))
        · exact absurd hmk (hlast m (hold m hmn hm))
        · exact inv.apart m k (hold m hmn hm) (hold k hkn hk) hmk
      bytes := by
        show w.Covers _ ((h.memory.push base (h.kind n).size).setMark _).bytesAllocated
        rw [Memory.Allocator.bytesAllocated_setMark,
          Memory.Allocator.bytesAllocated_push _ _ (h.kind n).size_pos,
          Heap.storageBytes_equip base hlt hstage, Juncture.covers_add_iff]
        exact inv.bytes
      nodeCount := by
        rw [Heap.allocatedCount_equip base hlt hstage, ← inv.nodeCount]
        rfl
      ledger := fun hw => { inv.ledger hw with }
      current := fun hw => by
        have hstages := Heap.stage_equip base hlt
        refine (inv.current hw).mono (fun m hs => ?_) (fun m hs hs' hd => ?_)
          fun e he m hm hcur => ?_
        · rw [hstages]
          split_ifs
          · exact fun hs => by cases hs
          · exact hs
        · have hmn : m ≠ n := fun hmn => hs (hmn ▸ hstage)
          rw [hstages, if_neg hmn] at hs'
          rw [hdet m hmn] at hd
          exact ⟨hs', hd, id⟩
        · rwa [hdet m (hne m (inv.weakKeys e he m hm).1)]
      deaths := fun hw => (inv.deaths hw).change fun m hm => .inr (hm.relist fun _ hlive => by
        rw [hlist, if_pos rfl]
        exact List.mem_append_left _ hlive)
      accounts := by
        rw [Heap.freedCount_equip base hlt hstage]
        exact inv.accounts }

/-- An equipped node is on the live list. -/
theorem Invariant.mem_liveList_equip
    (inv : Invariant law { w with building := n :: w.building } h) (base : Memory.Address) :
    n ∈ (h.equip n base).rings.toList liveList := by
  obtain ⟨hlt, hout⟩ := inv.unborn_of_building (n := n) List.mem_cons_self
  rw [inv.toList_equip hlt hout, if_pos rfl]
  exact List.mem_append_right _ (List.mem_singleton_self n)

/-! ## The byte limit -/

/-- The bytes of the nodes are among those that the store has outstanding: every node has a block of
its own, which is at least as large. -/
theorem Invariant.storageBytes_le (inv : Invariant law w h) :
    h.storageBytes ≤ h.memory.store.bytesAllocated := by
  have hstored : ∀ n node, h.nodes[n]? = some node →
      (if node.stage = .allocated then node.kind.size else 0) ≠ 0 →
        h.isAllocated n = true ∧ h.kind n = node.kind ∧ node.stage = .allocated := by
    intro n node hnode hne
    have hstage : node.stage = .allocated := by
      by_contra hstage
      exact hne (if_neg hstage)
    refine ⟨?_, ?_, hstage⟩
    · simp [Heap.isAllocated, hnode, hstage]
    · simp [Heap.kind, hnode]
  rw [inv.memory.balanced]
  refine sum_le_sum_of_place h.block (fun n node hnode hne => ?_) fun m n x y hm hn hx hy => ?_
  · obtain ⟨hn, hkind, hstage⟩ := hstored n node hnode hne
    obtain ⟨block, hlive, hsize⟩ := (inv.backed n hn).lends
    obtain ⟨hblock, hout⟩ := Memory.BlockStore.outstanding_of_live? hlive
    refine ⟨block, hblock, ?_⟩
    rw [if_pos hstage, hout, hsize, hkind]
    exact Nat.le_add_right _ _
  · exact inv.apart m n (hstored m x hm hx).1 (hstored n y hn hy).1

/-- A node that is given storage leaves the bytes outstanding within the limit. -/
theorem Invariant.bytes_push_le (inv : Invariant law w h) (hw : w.torn = false) {size : Nat}
    (hsize : 0 < size) {base : Memory.Address} (hplace : h.memory.admit? size = some base)
    {limit : Nat} (hlimit : h.memory.store.limit = some limit) (hword : limit < Word.largest) :
    (h.memory.push base size).bytesAllocated ≤ limit := by
  have hstored := inv.storageBytes_le
  have hbytes := inv.bytes.eq hw
  have hle := Memory.Allocator.bytesAllocated_add_le hplace hlimit hword
  rw [Memory.Allocator.bytesAllocated_push _ _ hsize]
  omega

namespace Collector

variable {run : Runner}

@[simp] theorem leads_reserve {kind : Kind} {payload : Payload} {Q : NodeId → Heap → Prop}
    {E : Failure → Heap → Prop} :
    Leads (reserve kind payload) h Q E ↔ Q h.nodes.size (h.build kind payload) := Iff.rfl

@[simp] theorem leads_install {base : Memory.Address} {Q : Unit → Heap → Prop}
    {E : Failure → Heap → Prop} :
    Leads (install n base) h Q E ↔ Q () (h.equip n base) := by
  have hlast : ∀ c, Memory.Allocator.lastBlock
      ((h.modifyMemory (·.push base (h.kind n).size)).modifyChronicle c).memory =
        h.memory.store.blocks.size := fun _ => Memory.Allocator.lastBlock_push _ _ _
  unfold install
  simp only [leads_bind, leads_view, leads_update, hlast]
  rfl

/-- After the collections that are due, what is left of placing a node is to ask for its storage. -/
theorem place_of_collected {fuel : Nat} {k : Heap} (hdue : collectIfDue run fuel h = .ok () k) :
    place run fuel n h =
      (if blockAlignment < (k.kind n).alignment then fatal (.misaligned (k.kind n))
        else match k.memory.admit? (k.kind n).size with
          | none => throw (.outOfMemory (k.kind n).size)
          | some base => install n base : Act Unit) k := by
  unfold place
  simp only [bind, EStateM.bind, hdue, view]
  split
  · rfl
  · rfl

/-- The collections that are due before an allocation keep the invariant. -/
theorem collectIfDue_spec (hrun : run.Keeps law w.torn w.scarred) (fuel : Nat) (hopen : w.Open)
    (inv : Invariant law w h) :
    Leads (collectIfDue run fuel) h (fun _ => Invariant law w)
      (Failed (Invariant law w) w.torn) := by
  have hfull : ∀ h, Invariant law w h →
      Leads (do if ← Act.view fullDue then discard <| collect run fuel) h
        (fun _ => Invariant law w) (Failed (Invariant law w) w.torn) := by
    intro h inv
    simp only [leads_bind, leads_view]
    split
    · rw [leads_discard]
      exact (collect_spec hrun fuel hopen inv).imp fun _ _ hpost => hpost.1
    · exact inv
  unfold collectIfDue
  simp only [leads_bind, leads_view]
  split
  · simp only [leads_bind, leads_view]
    split
    · simp only [leads_bind, leads_discard]
      refine (liteSweep_spec hrun fuel hopen.idle hopen.swept inv).mono (fun _ h₁ hpost => ?_)
        fun _ _ he => he.mono And.right
      have hafter := hfull h₁ hpost.1
      simp only [leads_bind, leads_view] at hafter
      exact hafter
    · have hafter := hfull h inv
      simp only [leads_bind, leads_view] at hafter
      exact hafter
  · exact inv

/-- Placing a built node keeps the invariant, and leaves the node built if it fails. -/
theorem place_spec (hrun : run.Keeps law w.torn w.scarred) (fuel : Nat) (hopen : w.Open)
    (inv : Invariant law { w with building := n :: w.building } h) (hn : n ∉ w.building) :
    Leads (place run fuel n) h
      (fun _ h' => Invariant law w h' ∧ n ∈ h'.rings.toList liveList)
      (Failed (Invariant law { w with building := n :: w.building }) w.torn) := by
  unfold place
  simp only [leads_bind, leads_view]
  refine (collectIfDue_spec (w := { w with building := n :: w.building }) hrun fuel
    (hopen.build _) inv).imp fun _ h₁ inv₁ => ?_
  split
  · simp only [leads_bind]
    exact leads_fatal_failed rfl fun _ => { inv₁ with }
  · simp only [leads_bind, leads_view]
    split
    · exact leads_throw.2 (.of_not_isFinal rfl inv₁)
    · rename_i base hbase
      rw [leads_install]
      exact ⟨inv₁.equip hn hbase, inv₁.mem_liveList_equip base⟩

/-- Allocating a node around a payload whose edges are in flight keeps the invariant. If it fails
the edges have been released. -/
theorem allocate_spec (hrun : run.Keeps law w.torn w.scarred) (fuel : Nat) (hready : w.Ready)
    (kind : Kind) {payload : Payload} (inv : Invariant law (w.holding payload.allEdges) h) :
    Leads (allocate run fuel kind payload) h
      (fun n h' => Invariant law w h' ∧ n ∈ h'.rings.toList liveList)
      (Failed (Invariant law w) w.torn) := by
  have hnew : h.nodes.size ∉ w.building := fun hmem =>
    Nat.lt_irrefl _ (Heap.lt_size_of_payload (inv.building _ hmem).2.1)
  unfold allocate
  simp only [leads_bind, leads_reserve]
  refine Leads.onFailure (place_spec hrun fuel hready.toOpen (inv.build kind) hnew)
    fun h₁ inv₁ => ?_
  refine (dropPayload_spec (w := { w with building := h.nodes.size :: w.building }) hrun inv₁
    w.building w.dropping (fun m => ?_) (fun m hm => hm) (fun m hm _ => hm)
    (.inr List.mem_cons_self)
    (fun hs => Nat.lt_irrefl _ (inv.started _ hs).1) (inv₁.building _ List.mem_cons_self).2.1
    (hready.start _)).mono (fun _ _ hpost => hpost.1) fun _ _ he => he.mono fun hcut => hcut.2
  refine ⟨fun hm => ⟨List.mem_cons_of_mem _ hm, ?_⟩, fun hm => ?_⟩
  · rintro rfl
    exact hnew hm
  · exact (List.mem_cons.1 hm.1).resolve_left hm.2

end Collector

end HybridHeap
