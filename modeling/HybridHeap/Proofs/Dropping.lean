import HybridHeap.Proofs.Counting

/-!
# Dropping payloads keeps the invariant

Each update of the heap on the way has a lemma that takes the invariant from one juncture to the
next: nodes change lists, a payload that goes leaves its edges in flight, and what befalls a node is
recorded. Where a destructor runs, only the invariant is known of the heap afterwards; the other
steps say exactly what they leave alone.
-/

namespace HybridHeap

open Collector Act

variable {law : Law} {w : Juncture} {h h' : Heap} {n : NodeId}

/-! ## Flight -/

/-- References in flight may be taken up one after the other. -/
theorem Juncture.holding_append (w : Juncture) (ns ms : List NodeId) :
    w.holding (ns ++ ms) = (w.holding ms).holding ns := by
  unfold Juncture.holding
  rw [List.append_assoc]

namespace Heap

/-- References in flight are references to their targets. -/
theorem debts_holding_append (h : Heap) (w : Juncture) (ns : List NodeId) (m : NodeId) :
    h.debts (w.holding ns) m = h.debts w m + ns.count m := by
  show h.holders m + w.pins.count m + (ns ++ w.flight).count m = _
  rw [List.count_append, debts]
  omega

end Heap

/-- In a heap that may be torn, references in flight may be lost and stay counted. -/
theorem Invariant.abandon {ns : List NodeId} (hw : w.torn = true)
    (inv : Invariant law (w.holding ns) h) : Invariant law w h := by
  have hle : ∀ m, h.debts w m ≤ h.debts (w.holding ns) m := fun m => by
    rw [Heap.debts_holding_append]
    omega
  exact
    { inv with
      covered := fun m => (inv.covered m).imp_right fun hc =>
        ⟨(hle m).trans hc.le, fun hf => absurd (hw.symm.trans hf) (by simp)⟩
      grounded := fun m hm => inv.grounded m (hm.trans_le (hle m)) }

/-! ## Lost payloads -/

/-- What has befallen a node is on record. -/
theorem Heap.mem_fates {f : Fate} : f ∈ h.fates n ↔ (n, f) ∈ h.history := by
  unfold Heap.fates
  simp

/-- The payload of a node whose destructor has started is lost. -/
theorem Invariant.lost_of_started (inv : Invariant law w h) (hn : n ∈ w.started) :
    Lost h.history n := by
  apply Heap.mem_fates.1
  rw [(inv.started n hn).2]
  exact List.mem_cons_self

/-- A node with storage that is not detached has its payload. -/
theorem Invariant.isSome_payload? (inv : Invariant law w h) (hn : h.isAllocated n = true)
    (hdetached : h.isDetached n = false) : (h.payload? n).isSome := by
  have hdrop : n ∉ w.dropping := fun hmem => by cases hdetached.symm.trans (inv.dropping n hmem).2
  rw [← Option.ne_none_iff_isSome]
  intro hnone
  cases hdetached.symm.trans ((inv.emptied n hdrop hn).2 hnone)

/-- A detached node has lost its payload, unless it is about to. -/
theorem Invariant.lost_of_isDetached (inv : Invariant law w h) (hn : h.isAllocated n = true)
    (hdetached : h.isDetached n = true) (hdrop : n ∉ w.dropping) : Lost h.history n := by
  by_cases hstarted : n ∈ w.started
  · exact inv.lost_of_started hstarted
  · obtain ⟨last, -, ht⟩ := inv.timely n hstarted
    apply Heap.mem_fates.1
    rw [ht.bare ((inv.emptied n hdrop hn).1 hdetached) hn]
    exact List.mem_cons_self

/-- A node that has its payload has not lost it, unless its destructor is running. -/
theorem Invariant.not_lost (inv : Invariant law w h) (hn : (h.payload? n).isSome)
    (hstarted : n ∉ w.started) : ¬Lost h.history n := by
  unfold Lost
  rw [← Heap.mem_fates, (inv.timely n hstarted).whole hn]
  exact List.not_mem_nil

/-! ## Lists -/

/-- What has storage is not being built. -/
theorem Invariant.not_mem_building (inv : Invariant law w h) (hn : h.isAllocated n = true) :
    n ∉ w.building := fun hmem => by
  rw [Heap.isAllocated_iff, (inv.building n hmem).1] at hn
  cases hn

/-- A node on the reachable list is kept by a full collection that is sweeping. -/
theorem Invariant.not_mem_of_loses (inv : Invariant law w h) (hn : w.Loses n)
    {l : List (NodeId × Bool)} (hl : w.kept = some l) : n ∉ h.rings.toList reachableList :=
  fun hmem => hn l hl (n, h.isDetached n) (inv.kept l hl ▸ List.mem_map_of_mem hmem) rfl

/-- A node on the live list is not kept by a full collection that is sweeping. -/
theorem Invariant.loses_of_mem_liveList (inv : Invariant law w h)
    (hn : n ∈ h.rings.toList liveList) : w.Loses n := by
  intro l hl x hx hxn
  rw [← inv.kept l hl] at hx
  obtain ⟨m, hm, rfl⟩ := List.mem_map.1 hx
  obtain rfl : m = n := hxn
  exact absurd (inv.rings.disjoint hn hm) (by decide)

/-- A lite sweep that takes a node off its list takes it. -/
theorem Juncture.takes_cons {m : NodeId} : Takes { w with loose := n :: w.loose } m ↔
    w.Takes m ∨ m = n ∧ ∃ pins doomed, w.guard = some (.lite pins doomed) := by
  simp only [takes_iff, List.mem_cons]
  grind

/-- Taking a node off its list leaves it loose. Collections do so. -/
theorem Invariant.unlink (inv : Invariant law w h) (hn : w.Loses n)
    (hguard : w.guard = some .full ∨ ∃ pins doomed, w.guard = some (.lite pins doomed)) :
    Invariant law { w with loose := n :: w.loose } (h.modifyRings (·.unlink (.node n))) :=
  have hlist := inv.rings.toList_unlink n
  { inv with
    rings := inv.rings.unlink n
    size_sentinels := (Rings.size_sentinels_unlink _ _).trans inv.size_sentinels
    size_nodes := (Rings.size_nodes_unlink _ _).trans inv.size_nodes
    listed := fun l m hm => inv.listed l m (List.mem_of_mem_erase (hlist l ▸ hm))
    attached := fun m hm ha hd => by
      obtain ⟨hmn, hm⟩ := not_or.1 (mt List.mem_cons.2 hm)
      show m ∈ (h.rings.unlink _).toList _ ∨ m ∈ (h.rings.unlink _).toList _
      rw [hlist, hlist, List.mem_erase_of_ne hmn, List.mem_erase_of_ne hmn]
      exact inv.attached m hm ha hd
    marked := fun hs m hm => inv.marked hs m (List.mem_of_mem_erase (hlist _ ▸ hm))
    settled := fun hs hw => by
      obtain ⟨hempty, hlive⟩ := inv.settled hs hw
      refine ⟨?_, fun m hm => hlive m (List.mem_of_mem_erase (hlist _ ▸ hm))⟩
      show (h.rings.unlink _).toList _ = []
      rw [hlist, hempty, List.erase_nil]
    lagging := fun hs l hl m hm ha hout => by
      rw [Juncture.takes_cons, not_or] at hm
      refine inv.lagging hs l hl m hm.1 ha fun hmem => hout ?_
      show m ∈ (h.rings.unlink _).toList l
      rw [hlist]
      obtain hfull | hlite := hguard
      · -- A full collection keeps what is on the list with what is marked.
        have hl : w.markedList = some l := hl
        rw [Juncture.markedList_of_full hfull, Option.map_eq_some_iff] at hl
        obtain ⟨kept, hkept, rfl⟩ := hl
        rwa [List.erase_of_not_mem (inv.not_mem_of_loses hn hkept)]
      · exact (List.mem_erase_of_ne fun hmn => hm.2 ⟨hmn, hlite⟩).2 hmem
    kept := fun l hl => by
      have hsame : (h.rings.unlink (.node n)).toList reachableList =
          h.rings.toList reachableList := by
        rw [hlist, List.erase_of_not_mem (inv.not_mem_of_loses hn hl)]
      have hkeeps : (h.modifyRings (·.unlink (.node n))).keeps = h.keeps :=
        Heap.keeps_eq_iff.2 ⟨hsame, fun _ _ => rfl⟩
      exact hkeeps.trans (inv.kept l hl)
    doomed := fun m hm =>
      have hold := inv.doomed m hm
      ⟨hold.allocated, hold.count, hold.unqueued,
        fun l hl => hold.unlisted l (List.mem_of_mem_erase (hlist l ▸ hl)), hold.unkeyed⟩
    current := fun hw => (inv.current hw).loosen fun _ => List.mem_cons_of_mem n
    deaths := fun hw => (inv.deaths hw).change fun m hm => by
      show _ ∨ Due (n :: w.loose) w.dropping w.kept ((h.rings.unlink (.node n)).toList liveList) m
      rw [hlist]
      right
      by_cases hmn : m = n
      · exact .loose (hmn ▸ List.mem_cons_self)
      · cases hm with
        | loose hm => exact .loose (List.mem_cons_of_mem n hm)
        | dropping hm => exact .dropping hm
        | listed hkept hm => exact .listed hkept ((List.mem_erase_of_ne hmn).2 hm) }

/-- The node is the one that is being reclaimed, if it is a lite sweep that is under way. -/
def Juncture.Gives (w : Juncture) (n : NodeId) : Prop :=
  ∀ pins doomed, w.guard = some (.lite pins doomed) → doomed = some n

/-- A node that a lite sweep is reclaiming is taken, loose or not. -/
theorem Juncture.Gives.takes {m : NodeId} (hgives : w.Gives n)
    (hm : Takes { w with loose := n :: w.loose } m) : w.Takes m := by
  obtain hm | ⟨rfl, pins, doomed, hw⟩ := takes_cons.1 hm
  · exact hm
  · exact takes_iff.2 ⟨pins, doomed, hw, .inr (hgives pins doomed hw)⟩

/-- A node that is detached need not be loose. -/
theorem Invariant.tighten (inv : Invariant law { w with loose := n :: w.loose } h)
    (hgives : w.Gives n) (halloc : h.isAllocated n = true) (hn : h.isDetached n = true) :
    Invariant law w h :=
  have hloose : ∀ m, h.isDetached m = false → m ∈ n :: w.loose → m ∈ w.loose := fun m hd hmem => by
    obtain rfl | hmem := List.mem_cons.1 hmem
    · rw [hn] at hd
      cases hd
    · exact hmem
  { inv with
    attached := fun m hm ha hd => inv.attached m (fun hmem => hm (hloose m hd hmem)) ha hd
    lagging := fun hs l hl m hm => inv.lagging hs l hl m (mt hgives.takes hm)
    current := fun hw => (inv.current hw).mono (fun _ hs => hs)
      (fun m _ hs hd => ⟨hs, hd, Or.imp_left (hloose m hd)⟩) fun _ _ _ _ hm => hm
    deaths := fun hw => (inv.deaths hw).change fun m hm => by
      cases hm with
      | loose hm =>
        obtain rfl | hm := List.mem_cons.1 hm
        · by_cases hdrop : m ∈ w.dropping
          · exact .inr (.dropping hdrop)
          · exact .inl (inv.lost_of_isDetached halloc hn hdrop)
        · exact .inr (.loose hm)
      | dropping hm => exact .inr (.dropping hm)
      | listed hkept hm => exact .inr (.listed hkept hm) }

/-! ## Dropping payloads -/

/-- Marking a loose node as detached makes it one whose payload is being dropped. -/
theorem Invariant.setDetached (inv : Invariant law { w with loose := n :: w.loose } h)
    (hgives : w.Gives n) (hlost : w.Loses n) (hn : h.isAllocated n = true)
    (hkeyed : (∀ e ∈ h.roots.weak.toList, e.key ≠ some n) ∨ Forsaken w.kept n) :
    Invariant law { w with dropping := n :: w.dropping }
      (h.setStatus n ((h.status n).insert .detached)) := by
  have hlt := Heap.lt_size_of_isAllocated hn
  have hflag : ∀ m f, ((h.setStatus n ((h.status n).insert .detached)).status m).contains f =
      ((h.status m).contains f || decide (m = n ∧ f = .detached)) := by
    intro m f
    rw [Heap.status_setStatus hlt]
    split_ifs with hmn
    · simp [hmn, eq_comm]
    · simp [hmn]
  have hdetached : ∀ m, (h.setStatus n ((h.status n).insert .detached)).isDetached m =
      (h.isDetached m || decide (m = n)) := fun m => by
    unfold Heap.isDetached
    simp [hflag]
  refine inv.reflag hn (Status.count_insert _ _) (by simp) w.loose (n :: w.dropping)
    (fun m hm ha hd => ?_) (fun hs m hm => ?_) (fun hs hw m hm => ?_) (fun _ => by simp)
    (fun _ => hgives.takes) (fun m hm ha => ?_)
    (fun m hm => ?_) (fun m hm => ?_) (fun e he key hkey => ?_) (fun hw => ?_) fun m hm => ?_
  · rw [hdetached, Bool.or_eq_false_iff, decide_eq_false_iff_not] at hd
    exact inv.attached m (by simp [hd.2, hm]) ha hd.1
  · simpa [hflag] using inv.marked hs m hm
  · simpa [hflag] using (inv.settled hs hw).2 m hm
  · obtain ⟨hmn, hm⟩ := not_or.1 (mt List.mem_cons.2 hm)
    simpa [hdetached, hmn] using inv.emptied m hm ha
  · rw [hdetached]
    obtain rfl | hm := List.mem_cons.1 hm
    · simp [hn]
    · obtain ⟨ha, hd⟩ := inv.dropping m hm
      simp [ha, hd]
  · have hmn : m ≠ n := by
      rintro rfl
      exact hm hlost
    simp [hdetached, hmn]
  · simpa [hflag] using (inv.weakKeys e he key hkey).2
  · refine (inv.current hw).mono (fun _ hs => hs) (fun m _ hs hd => ?_) fun e he m hm hcur => ?_
    · rw [hdetached, Bool.or_eq_false_iff, decide_eq_false_iff_not] at hd
      exact ⟨hs, hd.1, Or.imp_left fun hmem => (List.mem_cons.1 hmem).resolve_left hd.2⟩
    · -- The entry is not keyed by the node: it would have expired before.
      have hmn : m ≠ n := by
        rintro rfl
        exact hkeyed.elim (fun hne => hne e he hm) hcur.2
      simpa [hdetached, hmn] using hcur
  · cases hm with
    | loose hm =>
      obtain rfl | hm := List.mem_cons.1 hm
      · exact .dropping List.mem_cons_self
      · exact .loose hm
    | dropping hm => exact .dropping (List.mem_cons_of_mem n hm)
    | listed hkept hm => exact .listed hkept hm

namespace Heap

/-- The heap with the payload of a node gone. -/
def strip (h : Heap) (n : NodeId) : Heap :=
  h.modifyNode n fun node => { node with payload := none }

@[simp] theorem isAllocated_strip (h : Heap) (n m : NodeId) :
    (h.strip n).isAllocated m = h.isAllocated m := isAllocated_modifyNode (fun _ => by rfl) h n m

@[simp] theorem stage_strip (h : Heap) (n m : NodeId) : (h.strip n).stage m = h.stage m :=
  stage_modifyNode (fun _ => by rfl) h n m

@[simp] theorem status_strip (h : Heap) (n m : NodeId) : (h.strip n).status m = h.status m :=
  status_modifyNode (fun _ => by rfl) h n m

@[simp] theorem kind_strip (h : Heap) (n m : NodeId) : (h.strip n).kind m = h.kind m :=
  kind_modifyNode (fun _ => by rfl) h n m

@[simp] theorem block_strip (h : Heap) (n m : NodeId) : (h.strip n).block m = h.block m :=
  block_modifyNode (fun _ => by rfl) h n m

theorem payload?_strip (h : Heap) (n m : NodeId) :
    (h.strip n).payload? m = if m = n then none else h.payload? m := by
  unfold strip payload?
  rw [getElem?_modifyNode]
  split_ifs
  · cases h.nodes[m]? <;> rfl
  · rfl

/-- The edges of a payload that goes are holders no more. -/
theorem holders_strip (h : Heap) (n m : NodeId) :
    (h.strip n).holders m + (h.edges n).count m = h.holders m := by
  have hedges : (h.strip n).edges n = [] := by
    rw [edges_eq, payload?_strip, if_pos rfl]
    rfl
  have hpayload : (h.strip n).payloadHolders m + (h.edges n).count m = h.payloadHolders m := by
    by_cases hn : n < h.nodes.size
    · have hadd := payloadHolders_modifyNode_add hn (fun node => { node with payload := none }) m
      have hnone : (h.modifyNode n fun node => { node with payload := none }).edges n = [] := hedges
      rw [hnone, List.count_nil] at hadd
      exact hadd
    · have hout : h.nodes[n]? = none := Array.getElem?_eq_none (Nat.not_lt.1 hn)
      have hnil : h.edges n = [] := by
        unfold edges
        rw [hout]
        rfl
      have hsame : (h.strip n).nodes = h.nodes := by
        refine Array.ext_getElem? fun k => ?_
        unfold strip
        rw [getElem?_modifyNode]
        split_ifs with hk
        · rw [hk, hout]
          rfl
        · rfl
      rw [hnil, List.count_nil]
      unfold payloadHolders
      rw [hsame]
      rfl
  show (h.strip n).payloadHolders m + h.handleHolders m + h.rootHolders m + h.weakHolders m +
    h.lostHolders m + _ = _
  unfold holders
  omega

end Heap

/-- When the payload of a node goes, its edges are in flight. The node is no longer one whose
payload is being dropped, or is not being built any more. -/
theorem Invariant.strip (inv : Invariant law w h) (hn : n ∈ w.started)
    {building dropping : List NodeId} (hbuilding : ∀ m, m ∈ building ↔ m ∈ w.building ∧ m ≠ n)
    (hdropping : ∀ m ∈ dropping, m ∈ w.dropping)
    (hothers : ∀ m ∉ dropping, m ≠ n → m ∉ w.dropping)
    (hdetached : h.isAllocated n = true → h.isDetached n = true) :
    Invariant law { w.holding (h.edges n) with building, dropping } (h.strip n) := by
  have hdebts : ∀ m, (h.strip n).debts { w.holding (h.edges n) with building, dropping } m =
      h.debts w m := by
    intro m
    have hstrip := h.holders_strip n m
    show (h.strip n).holders m + w.pins.count m + (h.edges n ++ w.flight).count m =
      h.holders m + w.pins.count m + w.flight.count m
    rw [List.count_append]
    omega
  have halloc : (h.strip n).isAllocated = h.isAllocated := funext (h.isAllocated_strip n)
  have hstatus : (h.strip n).status = h.status := funext (h.status_strip n)
  have hdet : (h.strip n).isDetached = h.isDetached := by
    funext m
    unfold Heap.isDetached
    rw [hstatus]
  have hfreed : (h.strip n).freedCount = h.freedCount :=
    sum_modify_of_eq _ _ fun _ => by rfl
  -- Only the payload goes, and the start of its destructor is on record. Lists, status words and
  -- storage stay.
  exact
    { inv with
      covered := fun m => by
        rw [hdebts, hstatus]
        exact inv.covered m
      grounded := fun m => by
        rw [hdebts, halloc]
        exact inv.grounded m
      mem_moribund := by
        rw [halloc, hstatus]
        exact inv.mem_moribund
      size_nodes := inv.size_nodes.trans (Heap.size_nodes_modifyNode _ _ _).symm
      listed := by
        rw [halloc]
        exact inv.listed
      attached := by
        rw [halloc, hdet]
        exact inv.attached
      marked := by
        rw [hstatus]
        exact inv.marked
      settled := by
        rw [hstatus]
        exact inv.settled
      flips := by
        rw [show (h.strip n).stage = h.stage from funext (h.stage_strip n)]
        exact inv.flips
      lagging := by
        unfold Heap.Lags Heap.readsMarked
        rw [halloc, hstatus]
        exact inv.lagging
      emptied := fun m hm ha => by
        rw [halloc] at ha
        rw [hdet, h.payload?_strip]
        split_ifs with hmn
        · subst hmn
          exact iff_of_true (hdetached ha) rfl
        · exact inv.emptied m (hothers m hm hmn) ha
      dropping := fun m hm => by
        rw [halloc, hdet]
        exact inv.dropping m (hdropping m hm)
      kept := fun l hl => by
        have hkeeps : (h.strip n).keeps = h.keeps :=
          Heap.keeps_eq_iff.2 ⟨rfl, fun m _ => congrFun hdet m⟩
        exact hkeeps.trans (inv.kept l hl)
      started := by
        rw [show (h.strip n).nodes.size = h.nodes.size from Heap.size_nodes_modifyNode _ _ _]
        exact inv.started
      timely := fun m hm => by
        have hmn : m ≠ n := fun hmn => hm (hmn ▸ hn)
        exact (inv.timely m hm).congr (Heap.size_nodes_modifyNode _ _ _)
          (by rw [h.payload?_strip, if_neg hmn]) (congrFun halloc m) rfl
      owned := fun m hm => by
        rw [h.payload?_strip] at hm
        split_ifs at hm with hmn
        · cases hm
        · rw [halloc]
          exact (inv.owned m hm).imp_right fun hb => (hbuilding m).2 ⟨hb, hmn⟩
      building := fun m hm => by
        obtain ⟨hm, hmn⟩ := (hbuilding m).1 hm
        rw [h.payload?_strip, if_neg hmn, h.stage_strip, hstatus]
        exact inv.building m hm
      planned := fun m kind p hp => by
        obtain ⟨hlt, hknown⟩ := inv.planned m kind p hp
        refine ⟨hlt.trans_eq (Heap.size_nodes_modifyNode _ _ _).symm, fun hm => ?_⟩
        obtain ⟨hm, hmn⟩ := (hbuilding m).1 hm
        rw [h.kind_strip, h.payload?_strip, if_neg hmn]
        exact hknown hm
      stacked := by
        rw [halloc]
        exact inv.stacked
      weakKeys := by
        rw [halloc, hstatus]
        exact inv.weakKeys
      doomed := fun m hm => by
        unfold Heap.Doomed
        rw [halloc, hstatus]
        exact inv.doomed m hm
      backed := by
        rw [halloc, show (h.strip n).block = h.block from funext (h.block_strip n),
          show (h.strip n).kind = h.kind from funext (h.kind_strip n)]
        exact inv.backed
      bitmap := by
        rw [halloc, show (h.strip n).block = h.block from funext (h.block_strip n)]
        exact inv.bitmap
      apart := by
        rw [halloc, show (h.strip n).block = h.block from funext (h.block_strip n)]
        exact inv.apart
      bytes := inv.bytes.congr (sum_modify_of_eq _ _ fun _ => by rfl)
      nodeCount := inv.nodeCount.trans (sum_modify_of_eq _ _ fun _ => by rfl).symm
      current := by
        rw [hdet, show (h.strip n).stage = h.stage from funext (h.stage_strip n)]
        exact inv.current
      deaths := fun hw => (inv.deaths hw).change fun m hm => by
        by_cases hmn : m = n
        · exact .inl (hmn ▸ inv.lost_of_started hn)
        · right
          cases hm with
          | loose hm => exact .loose hm
          | dropping hm => exact .dropping (by_contra fun hout => hothers m hout hmn hm)
          | listed hkept hm => exact .listed hkept hm
      accounts := by
        rw [hfreed]
        exact inv.accounts }

namespace Heap

/-- What befalls a node befalls no other. -/
theorem fates_befall (h : Heap) (n m : NodeId) (f : Fate) :
    (h.befall n f).fates m = if m = n then h.fates m ++ [f] else h.fates m := by
  unfold fates befall
  by_cases hmn : m = n
  · simp [hmn]
  · simp [hmn, Ne.symm hmn]

end Heap

/-- Something may befall a node while no finalizer is on its way to the queue. -/
theorem Invariant.deaths_befall (inv : Invariant law w h) (hparting : w.parting = [])
    (hw : w.Intact) (n : NodeId) (f : Fate) :
    Deaths (h.befall n f).history h.phase h.chronicle.makings h.chronicle.given h.chronicle.queued
      h.chronicle.queueings w.parting
      (Due w.loose w.dropping w.kept (h.rings.toList liveList)) := by
  have hdeaths := inv.deaths hw
  rw [hparting] at hdeaths ⊢
  exact hdeaths.record (n, f)

/-- The destructor of a payload may start once. -/
theorem Invariant.recordStart (inv : Invariant law w h) (hparting : w.parting = [])
    (hn : n ∉ w.started) (hpayload : (h.payload? n).isSome) :
    Invariant law { w with started := n :: w.started } (h.befall n .started) := by
  have hlt : n < h.nodes.size := Heap.lt_size_of_payload hpayload
  exact
    { inv with
      started := fun m hm => by
        rw [h.fates_befall]
        obtain rfl | hm := List.mem_cons.1 hm
        · rw [if_pos rfl, (inv.timely m hn).whole hpayload]
          exact ⟨hlt, rfl⟩
        · rw [if_neg (ne_of_mem_of_not_mem hm hn)]
          exact inv.started m hm
      timely := fun m hm => by
        obtain ⟨hmn, hm⟩ := not_or.1 (mt List.mem_cons.2 hm)
        exact (inv.timely m hm).congr rfl rfl rfl (by rw [h.fates_befall, if_neg hmn])
      deaths := fun hw => inv.deaths_befall hparting hw n .started }

/-- Once the payload is gone its destructor may end. -/
theorem Invariant.recordEnd (inv : Invariant law { w with started := n :: w.started } h)
    (hparting : w.parting = []) (hn : n ∉ w.started) (hpayload : h.payload? n = none) {last : Fate}
    (hlast : Fate.Ends w.scarred last) : Invariant law w (h.befall n last) := by
  obtain ⟨hlt, hfates⟩ := inv.started n List.mem_cons_self
  exact
    { inv with
      started := fun m hm => by
        rw [h.fates_befall, if_neg (ne_of_mem_of_not_mem hm hn)]
        exact inv.started m (List.mem_cons_of_mem n hm)
      timely := fun m hm => by
        by_cases hmn : m = n
        · subst hmn
          have hboth : (h.befall m last).fates m = [.started, last] := by
            rw [h.fates_befall, if_pos rfl, hfates]
            rfl
          refine ⟨last, hlast, fun hge => absurd hlt (Nat.not_lt.2 hge), fun hsome => ?_,
            fun _ _ => hboth, hboth ▸ ⟨[.freed], rfl⟩⟩
          rw [show (h.befall m last).payload? m = none from hpayload] at hsome
          cases hsome
        · exact (inv.timely m (by simp [hmn, hm])).congr rfl rfl rfl
            (by rw [h.fates_befall, if_neg hmn])
      deaths := fun hw => inv.deaths_befall hparting hw n last }

/-- The storage of a node may go back after its destructor has ended. -/
theorem Invariant.recordFree (inv : Invariant law w h) (hparting : w.parting = [])
    (hn : n ∉ w.started) (hlt : n < h.nodes.size) (hpayload : h.payload? n = none)
    (halloc : h.isAllocated n = false) {last : Fate} (hlast : Fate.Ends w.scarred last)
    (hfates : h.fates n = [.started, last]) :
    Invariant law w (h.befall n .freed) :=
  { inv with
    started := fun m hm => by
      rw [h.fates_befall, if_neg (ne_of_mem_of_not_mem hm hn)]
      exact inv.started m hm
    timely := fun m hm => by
      by_cases hmn : m = n
      · subst hmn
        refine ⟨last, hlast, fun hge => absurd hlt (Nat.not_lt.2 hge), fun hsome => ?_,
          fun _ ha => ?_, ?_⟩
        · rw [show (h.befall m .freed).payload? m = none from hpayload] at hsome
          cases hsome
        · rw [show (h.befall m .freed).isAllocated m = false from halloc] at ha
          cases ha
        · rw [h.fates_befall, if_pos rfl, hfates]
          exact List.prefix_refl _
      · exact (inv.timely m hm).congr rfl rfl rfl (by rw [h.fates_befall, if_neg hmn])
    deaths := fun hw => inv.deaths_befall hparting hw n .freed }

/-- What runs the mutator's programs keeps the invariant wherever the mutator may run, and every
failure of it hides the heap or unwinds. -/
def Runner.Keeps (law : Law) (torn scarred : Bool) (run : Runner) : Prop :=
  ∀ w program h, w.torn = torn → w.scarred = scarred → w.Ready → Invariant law w h →
    Leads (run program) h (fun _ => Invariant law w)
      (Failed (fun h' => w.Unwinds ∧ Invariant law w h') w.torn)

namespace Collector

variable {run : Runner}

/-- Releasing a payload drops it and counts its edges down. -/
theorem releasePayload_spec (inv : Invariant law w h) (hn : n ∈ w.started)
    (building dropping : List NodeId) (hbuilding : ∀ m, m ∈ building ↔ m ∈ w.building ∧ m ≠ n)
    (hdropping : ∀ m ∈ dropping, m ∈ w.dropping)
    (hothers : ∀ m ∉ dropping, m ≠ n → m ∉ w.dropping)
    (hdetached : h.isAllocated n = true → h.isDetached n = true) :
    Returns (releasePayload n) h fun _ h' =>
      Invariant law { w with building, dropping } h' ∧ Lowered (h.strip n) h' := by
  have hstrip := inv.strip hn hbuilding hdropping hothers hdetached
  unfold releasePayload
  simp only [Returns, leads_bind, leads_view, leads_update]
  rw [← h.edges_eq]
  exact releaseAll_spec (w := { w with building, dropping }) hstrip

/-- Running a destructor keeps the invariant. -/
theorem runDestructor_spec (hrun : run.Keeps law w.torn w.scarred) (inv : Invariant law w h)
    (n : NodeId) (hready : Juncture.Ready { w with dying := n :: w.dying }) :
    Leads (runDestructor run n) h (fun _ => Invariant law w)
      (Failed (fun h' => w.Unwinds ∧ Invariant law w h') w.torn) := by
  unfold runDestructor
  simp only [leads_bind, leads_view]
  cases (h.payload? n).bind Payload.hook with
  | none => exact inv
  | some hook =>
    simp only [leads_bind, leads_update]
    have hdying : Invariant law { w with dying := n :: w.dying } { h with dying := n :: h.dying } :=
      { inv with dying := congrArg (n :: ·) inv.dying }
    refine Leads.ensuring (hrun { w with dying := n :: w.dying } hook _ rfl rfl hready hdying)
      (fun answers h₁ inv₁ => ?_) fun h₁ hcut => ?_
    · exact { inv₁ with dying := congrArg List.tail inv₁.dying }
    · exact ⟨hcut.1, { hcut.2 with dying := congrArg List.tail hcut.2.dying }⟩

/-- Dropping a payload keeps the invariant, after which it is not being dropped or built any more,
and a node that was detached has storage and still is. -/
theorem dropPayload_spec (hrun : run.Keeps law w.torn w.scarred) (inv : Invariant law w h)
    {n : NodeId} (building dropping : List NodeId)
    (hbuilding : ∀ m, m ∈ building ↔ m ∈ w.building ∧ m ≠ n)
    (hdropping : ∀ m ∈ dropping, m ∈ w.dropping)
    (hothers : ∀ m ∉ dropping, m ≠ n → m ∉ w.dropping)
    (hn : n ∈ w.dropping ∨ n ∈ w.building) (hstarted : n ∉ w.started)
    (hpayload : (h.payload? n).isSome)
    (hready : Juncture.Ready { w with dying := n :: w.dying, started := n :: w.started }) :
    Leads (dropPayload run n) h
      (fun _ h' => Invariant law { w with building, dropping } h' ∧
        (n ∈ w.dropping → h'.isAllocated n = true ∧ h'.isDetached n = true))
      (Failed (fun h' => w.Unwinds ∧ Invariant law { w with building, dropping } h') w.torn) := by
  have hbegun : Invariant law { w with started := n :: w.started }
      ((h.emit (.dropped n)).befall n .started) :=
    { inv.recordStart hready.parting hstarted hpayload with }
  -- Whether the destructor returns or fails, the payload goes; the two differ in how its end is
  -- recorded.
  have hrelease : ∀ h₁, Invariant law { w with started := n :: w.started } h₁ →
      Returns (releasePayload n) h₁ fun _ h' =>
        Invariant law { w with building, dropping, started := n :: w.started } h' ∧
          h'.payload? n = none ∧
          (n ∈ w.dropping → h'.isAllocated n = true ∧ h'.isDetached n = true) := by
    intro h₁ inv₁
    have hdetached : h₁.isAllocated n = true → h₁.isDetached n = true := by
      intro ha
      obtain hn | hn := hn
      · exact (inv₁.dropping n hn).2
      · exact absurd hn (inv₁.not_mem_building ha)
    refine (releasePayload_spec (w := { w with started := n :: w.started }) inv₁
      List.mem_cons_self building dropping hbuilding hdropping hothers hdetached).mono ?_
    rintro _ h₂ ⟨inv₂, hl₂⟩
    refine ⟨inv₂, ?_, fun hd => ?_⟩
    · rw [hl₂.payload?, h₁.payload?_strip, if_pos rfl]
    · rw [hl₂.isAllocated, hl₂.isDetached, Heap.isDetached, h₁.isAllocated_strip, h₁.status_strip]
      exact inv₁.dropping n hd
  unfold dropPayload
  simp only [leads_bind, leads_update]
  have hdropped : Leads (ensuring (runDestructor run n) (releasePayload n))
      ((h.emit (.dropped n)).befall n .started)
      (fun _ h' => Invariant law { w with building, dropping, started := n :: w.started } h' ∧
        h'.payload? n = none ∧ (n ∈ w.dropping → h'.isAllocated n = true ∧ h'.isDetached n = true))
      (Failed (fun h' => w.Unwinds ∧
        Invariant law { w with building, dropping, started := n :: w.started } h' ∧
        h'.payload? n = none) w.torn) :=
    Leads.ensuring (runDestructor_spec (w := { w with started := n :: w.started }) hrun hbegun n
        hready) (fun _ h₁ inv₁ => (hrelease h₁ inv₁).leads fun _ _ hpost => hpost)
      fun h₁ hcut => (hrelease h₁ hcut.2).leads fun _ _ hpost => ⟨hcut.1, hpost.1, hpost.2.1⟩
  refine (Leads.onFailure hdropped fun h₁ hcut => ?_).imp ?_
  · exact ⟨hcut.1, hcut.2.1.recordEnd (w := { w with building, dropping }) hready.parting hstarted
      hcut.2.2 (.inr ⟨hcut.1.2, rfl⟩)⟩
  · rintro _ h₂ ⟨inv₂, hnone, hstill⟩
    exact ⟨inv₂.recordEnd (w := { w with building, dropping }) hready.parting hstarted hnone
      (.inl rfl), hstill⟩

/-- Detaching a loose node keeps the invariant, after which it is detached and not loose, and still
has storage. -/
theorem detach_spec (hrun : run.Keeps law w.torn w.scarred) {n : NodeId}
    (inv : Invariant law { w with loose := n :: w.loose } h) (hgives : w.Gives n)
    (hn : h.isAllocated n = true) (hlost : w.Loses n) (hstarted : n ∉ w.started)
    (hkeyed : (∀ e ∈ h.roots.weak.toList, e.key ≠ some n) ∨ Forsaken w.kept n)
    (hready : Juncture.Ready
      { w with dropping := n :: w.dropping, dying := n :: w.dying, started := n :: w.started }) :
    Leads (detach run n (h.status n)) h
      (fun _ h' => Invariant law w h' ∧ h'.isAllocated n = true ∧ h'.isDetached n = true)
      (Failed (fun h' => w.Unwinds ∧ Invariant law w h') w.torn) := by
  unfold detach
  cases hd : (h.status n).contains .detached with
  | true => exact ⟨inv.tighten hgives hn hd, hn, hd⟩
  | false =>
    simp only [Bool.not_false, if_true, leads_bind, leads_update]
    have hbuilding := inv.not_mem_building hn
    have hpayload : ((h.setStatus n ((h.status n).insert .detached)).payload? n).isSome := by
      rw [Heap.payload?_setStatus]
      exact inv.isSome_payload? hn hd
    exact (dropPayload_spec (w := { w with dropping := n :: w.dropping }) hrun
      (inv.setDetached hgives hlost hn hkeyed) w.building w.dropping
      (fun m => ⟨fun hm => ⟨hm, ne_of_mem_of_not_mem hm hbuilding⟩, fun hm => hm.1⟩)
      (fun m => List.mem_cons_of_mem n) (fun m hm hmn => by simp [hm, hmn])
      (.inl List.mem_cons_self) hstarted hpayload hready).imp
      fun _ h' hpost => ⟨hpost.1, hpost.2 List.mem_cons_self⟩

end Collector

end HybridHeap
