import HybridHeap.Proofs.Condemning
import HybridHeap.Proofs.HoldingOff

/-!
# Sources without pins

A root source that asks for no pinning relies on the counted edges to what it designates. They keep
its nodes for as long as they are there, whatever destructors do. But a lite sweep and the closing
sweep of a full collection drop the payloads of garbage and the weak entries keyed by it with the
edges that they hold, and when the last edge to a node has gone so the node goes as well, although a
source designates it and marking has come to it. If destructors only release edges, that is just how
such a node goes.
-/

namespace HybridHeap

open Act Collector

variable {law : Law} {w : Juncture} {h h' k l : Heap} {n : NodeId}

namespace Heap

/-! ## What held a node has gone -/

/-- What held a node in the first heap has gone in the second: the payloads with edges to it have
been dropped, the weak entries whose value it was have expired, and there were no other holders. -/
structure Bereft (h h' : Heap) (n : NodeId) : Prop where
  payload : ∀ m, n ∈ h.edges m → h'.payload? m = none
  value : ∀ slot e, h.roots.weak.get? slot = some e → e.value = some n →
    h'.roots.weak.get? slot = some hollow
  handle : h.handleHolders n = 0
  root : h.rootHolders n = 0
  lost : h.lostHolders n = 0

/-- Nothing but its holders keeps a node: it is not pinned, its count does not stick and there is no
reference to it in flight. -/
structure Exposed (h : Heap) (n : NodeId) : Prop where
  unpinned : n ∉ h.pinned
  unsaturated : (h.status n).isSaturated = false
  count : (h.status n).count = h.holders n

/-- No payload holds a node exactly if none has an edge to it. -/
theorem payloadHolders_eq_zero : h.payloadHolders n = 0 ↔ ∀ m, n ∉ h.edges m := by
  constructor
  · intro h0 m hm
    have hpos : 0 < (h.edges m).count n := List.count_pos_iff.2 hm
    have hle := h.count_edges_le m n
    omega
  · intro hnone
    rw [payloadHolders_eq_sum]
    exact Finset.sum_eq_zero fun m _ => List.count_eq_zero.2 (hnone m)

/-- No weak entry holds a node exactly if it is the value of none. -/
theorem weakHolders_eq_zero :
    h.weakHolders n = 0 ↔ ∀ e ∈ h.roots.weak.toList, e.value ≠ some n := by
  constructor
  · intro h0 e he hn
    have hpos := weakHolders_pos he hn
    omega
  · intro hnone
    refine List.sum_eq_zero fun c hc => ?_
    obtain ⟨e, he, rfl⟩ := List.mem_map.1 hc
    refine List.count_eq_zero.2 fun hn => hnone e he ?_
    exact Option.mem_toList.1 hn

end Heap

open scoped Classical in
/-- Among what is left nothing holds a node exactly if all that held it has gone. -/
theorem Remains.bereft_iff {D : Set NodeId} (hr : Remains D D h k) :
    h.Bereft k n ↔ k.holders n = 0 := by
  have hother : k.handleHolders n = h.handleHolders n ∧ k.rootHolders n = h.rootHolders n ∧
      k.lostHolders n = h.lostHolders n := by
    unfold Heap.handleHolders Heap.rootHolders Heap.lostHolders
    rw [hr.handles, hr.lost, hr.roots]
    exact ⟨rfl, rfl, rfl⟩
  obtain ⟨hhandle, hroot, hlost⟩ := hother
  -- Entries only expire, so one that has a value now had it before.
  have hkept : ∀ slot e, k.roots.weak.get? slot = some e → e.value = some n →
      h.roots.weak.get? slot = some e := by
    intro slot e he hn
    rw [hr.roots, get?_expire, Option.map_eq_some_iff] at he
    obtain ⟨e', he', heq⟩ := he
    split_ifs at heq
    · cases heq
      cases hn
    · rw [he', heq]
  constructor
  · intro hb
    have hpayload : k.payloadHolders n = 0 := by
      refine Heap.payloadHolders_eq_zero.2 fun m hm => ?_
      have hnone : k.payload? m = none := by
        by_cases hD : m ∈ D
        · exact hr.gone m hD
        · exact hb.payload m (hr.edges m hD ▸ hm)
      rw [Heap.edges_eq, hnone] at hm
      exact List.not_mem_nil hm
    have hweak : k.weakHolders n = 0 := by
      refine Heap.weakHolders_eq_zero.2 fun e he hn => ?_
      obtain ⟨slot, hslot⟩ := SlotTable.mem_toList.1 he
      rw [hb.value slot e (hkept slot e hslot hn) hn] at hslot
      cases hslot
      cases hn
    have h1 := hb.handle
    have h2 := hb.root
    have h3 := hb.lost
    unfold Heap.holders
    omega
  · intro h0
    have hzero : k.payloadHolders n = 0 ∧ k.weakHolders n = 0 := by
      unfold Heap.holders at h0
      omega
    unfold Heap.holders at h0
    refine ⟨fun m hm => ?_, fun slot e he hn => ?_, by omega, by omega, by omega⟩
    · by_contra hpayload
      have hD : m ∉ D := fun hD => hpayload (hr.gone m hD)
      exact Heap.payloadHolders_eq_zero.1 hzero.1 m (hr.edges m hD ▸ hm)
    · have hslot : k.roots.weak.get? slot =
          some (if decide (e.KeyedIn D) = true then hollow else e) := by
        rw [hr.roots, get?_expire, he]
        rfl
      split_ifs at hslot with hkeyed
      · exact hslot
      · exact absurd hn
          (Heap.weakHolders_eq_zero.1 hzero.2 e (SlotTable.mem_toList.2 ⟨slot, hslot⟩))

/-! ## Which nodes go -/

/-- The garbage is what nothing keeps but holders that go with it, if it is queued or held. -/
theorem Heap.mem_garbage_iff (inv : Invariant law w h) (hr : Remains h.garbage h.garbage h k) :
    n ∈ h.garbage ↔ h.Exposed n ∧ k.holders n = 0 ∧ (n ∈ h.moribund ∨ 0 < h.holders n) := by
  have hholders := hr.holders n
  constructor
  · intro hn
    have hmem := reclaimable_of_mem_garbage inv hn
    have hdebts := debts_of_mem_garbage inv hn
    have hcount := hmem.count
    unfold debts at hdebts
    exact ⟨⟨hmem.unpinned, hmem.unsaturated, by omega⟩, by omega,
      hmem.queued.imp_right fun hpos => by omega⟩
  · rintro ⟨he, h0, hqueued⟩
    have hcount := he.count
    exact mem_garbage inv Set.Subset.rfl
      ⟨he.unpinned, he.unsaturated, by omega, hqueued.imp_right fun hpos => by omega⟩

/-- Between the heaps a node that was held has gone just when what held it has gone and nothing else
kept it, and its payload has gone only with the node. -/
structure Heap.Tied (h h' : Heap) (n : NodeId) : Prop where
  bereft : h'.isAllocated n = false → n ∉ h.pinned ∧ h.Bereft h' n
  freed : h.Exposed n → h.Bereft h' n → h'.isAllocated n = false
  attached : h.Attached n → h'.isAllocated n = true → h'.Attached n

namespace Condemned

variable {S : Set NodeId}

/-- Marking and sweeping that come to nothing condemn nothing. -/
theorem refl (h : Heap) : Condemned ∅ h h :=
  { Remains.refl h, Lasting.refl h with
    stage := rfl
    detached := fun n => by simp
    le := fun _ => Nat.le_refl _
    queue := fun n h0 => by simp [h0] }

/-- What nothing but holders kept is kept by nothing else when some of them have been condemned. -/
theorem exposed (hc : Condemned S h k) (he : h.Exposed n) (inv : Invariant law w h)
    (inv' : Invariant law { w with phase } k) (hguard : w.guard = none) (htorn : w.torn = false) :
    k.Exposed n := by
  have hpins : w.pins = [] := by
    unfold Juncture.pins
    rw [hguard]
  have hunsaturated : (k.status n).isSaturated = false := by
    have hsat := he.unsaturated
    have hle := hc.le n
    have hbound := Status.count_le_max (h.status n)
    rw [Status.isSaturated_eq_false_iff] at hsat ⊢
    omega
  have hcount := he.count
  have hold : (h.status n).count = h.holders n + w.pins.count n + w.flight.count n :=
    (inv.count n htorn).resolve_left (by simp [he.unsaturated])
  have hnew : (k.status n).count = k.holders n + w.pins.count n + w.flight.count n :=
    (inv'.count n htorn).resolve_left (by simp [hunsaturated])
  rw [hpins] at hold hnew
  exact ⟨hc.pinned hc.stage ▸ he.unpinned, hunsaturated, by simp at hold hnew; omega⟩

/-- A node that is held when the payloads of other nodes are condemned and the garbage of what is
left is cleared goes as its holders go. -/
theorem tied (hc : Condemned S h k) (hl : Cleared k l) (inv : Invariant law w h)
    (inv' : Invariant law { w with phase } k) (hguard : w.guard = none) (htorn : w.torn = false)
    (hheld : 0 < h.holders n) (hn : n ∉ S) : h.Tied l n := by
  have hremains := hc.toRemains.trans hl.toRemains
  have halloc : h.isAllocated n = true := inv.grounded n (by unfold Heap.debts; omega)
  have hgone : l.isAllocated n = false ↔ n ∈ k.garbage := by
    rw [Bool.eq_false_iff, ne_eq, Heap.isAllocated_iff]
    by_cases hmem : n ∈ k.garbage
    · simp [hl.freed n hmem, hmem]
    · simp [hl.stage n hmem, hmem, hc.stage, Heap.isAllocated_iff.1 halloc]
  have hgarbage := Heap.mem_garbage_iff (n := n) inv' hl.toRemains
  refine ⟨fun hfreed => ?_, fun he hb => ?_, fun hattached hstays => ⟨hstays, ?_⟩⟩
  · obtain ⟨he, h0, -⟩ := hgarbage.1 (hgone.1 hfreed)
    exact ⟨hc.pinned hc.stage ▸ he.unpinned, hremains.bereft_iff.2 h0⟩
  · have he' := hc.exposed he inv inv' hguard htorn
    refine hgone.2 (hgarbage.2 ⟨he', hremains.bereft_iff.1 hb, ?_⟩)
    -- It was counted, so it has been queued if all that counted it has been condemned.
    have hcount := he.count
    have hcount' := he'.count
    refine (Nat.eq_zero_or_pos (k.holders n)).imp_left fun h0 => ?_
    exact (hc.queue n (by omega)).2 (.inr (.inr (by omega)))
  · have hout : n ∉ k.garbage := fun hmem => by
      rw [hgone.2 hmem] at hstays
      cases hstays
    rw [hl.detached n hout, Bool.eq_false_iff, ne_eq, hc.detached]
    simp [hattached.2, hn]

end Condemned

/-! ## The operations -/

/-- What a registered root source designates is a root, if it has storage. -/
theorem Heap.mem_rootNodes_of_source {s : SourceId} {source : RootSource}
    (hs : some s ∈ h.roots.external) (hsource : h.sources[s]? = some source)
    (hn : n ∈ source.nodes) (halloc : h.isAllocated n = true) : n ∈ h.rootNodes := by
  refine List.mem_append_right _ (List.mem_flatMap.2 ⟨s, ?_, ?_⟩)
  · exact List.mem_filterMap.2 ⟨some s, Array.mem_toList_iff.2 hs, rfl⟩
  · simp [Heap.designated, hsource, hn, halloc]

/-- Those of the nodes that have lost their storage are held by nothing. -/
def Heap.KeepsHeld (h : Heap) (ns : List NodeId) : Prop :=
  ∀ n ∈ ns, h.isAllocated n = false → h.holders n = 0

/-- Under the invariant no node loses its storage that is held. -/
theorem Invariant.keepsHeld (inv : Invariant law w h) (ns : List NodeId) : h.KeepsHeld ns := by
  intro n _ hfreed
  by_contra hheld
  have halloc := inv.grounded n (by unfold Heap.debts; omega)
  rw [hfreed] at halloc
  cases halloc

namespace Mutator

/-- What a registered root source designates, whether or not it asks for pinning, keeps its storage
in a lite sweep and in a full collection as long as a counted edge to it is left, whatever
destructors do. If they only release edges and nothing is written around the storage of nodes, a
node that was held goes exactly if all that held it goes, unless it is pinned or counted up
otherwise, and it keeps its payload until then. -/
theorem source_tied_to_holders {s : SourceId} {source : RootSource}
    (hs : some s ∈ h.roots.external) (hsource : h.sources[s]? = some source)
    (hheld : ∀ n ∈ source.nodes, 0 < h.holders n) :
    (Meets h → ∀ (cuts : Failure → Bool) (fuel depth : Nat),
      Leads (liteSweep (runNested (.cutting cuts) fuel depth) fuel) h
        (fun _ h' => h'.KeepsHeld source.nodes)
        (fun e h' => e ≠ .exhausted → h'.KeepsHeld source.nodes) ∧
      Leads (markSweep (runNested (.cutting cuts) fuel depth) fuel) h
        (fun _ h' => h'.KeepsHeld source.nodes)
        (fun e h' => e ≠ .exhausted → h'.KeepsHeld source.nodes)) ∧
    (Visited .tidying h → h.isInhibited = false → h.Quiet →
      ∀ (terms : Terms) (bound depth fuel : Nat), 2 * h.nodes.size < fuel →
      (∃ r h', liteSweep (runNested terms bound (depth + 1)) fuel h = .ok r h' ∧
        ∀ n ∈ source.nodes, h.Tied h' n) ∧
      ∃ r h', markSweep (runNested terms bound (depth + 1)) fuel h = .ok r h' ∧
        ∀ n ∈ source.nodes, h.Tied h' n) := by
  constructor
  · -- Whatever destructors do, the invariant gives storage to every node that is held.
    intro hm cuts fuel depth
    obtain ⟨w, hready, htorn, inv, hcutting⟩ := hm.keeps
    have hkeeps := hcutting cuts fuel depth
    have hfailed : ∀ e h', Failed (fun h' => w.torn = true ∧ Invariant .honest w h') w.torn e h' →
        e ≠ .exhausted → h'.KeepsHeld source.nodes := by
      intro e h' hf hne
      have hshown : e.hides w.torn = false := by simp [Failure.hides, htorn, hne]
      exact (hf.2 hshown).2.keepsHeld _
    exact ⟨(liteSweep_spec hkeeps fuel hready.idle hready.swept inv).mono
        (fun _ _ hpost => hpost.1.keepsHeld _) hfailed,
      (markSweep_spec hkeeps fuel hready.idle hready.swept inv).mono
        (fun _ _ hpost => hpost.2.1.keepsHeld _) hfailed⟩
  · intro hv hi hquiet terms bound depth fuel hfuel
    obtain ⟨w, hw, inv⟩ := hv.invariant
    have hidle := runNested_idle terms bound depth
    have hguard := guard_eq_none inv hi
    constructor
    · obtain ⟨r, h', hrun, -, -, hc⟩ :=
        returns_iff.1 (liteSweep_quiet hidle hquiet rfl hw inv hi hfuel)
      have inv' : Invariant .tidying { w with phase := w.phase } h := inv
      exact ⟨r, h', hrun, fun n hn => (Condemned.refl h).tied hc inv inv' hguard hw.torn
        (hheld n hn) (Set.notMem_empty n)⟩
    · obtain ⟨r, h', hrun, k, -, inv', hc, -, -, hp⟩ := returns_iff.1
        (markSweep_condemns hidle hquiet rfl hw.idle hw.swept hw.torn hw.scarred inv hi hfuel)
      refine ⟨r, h', hrun, fun n hn => ?_⟩
      have halloc : h.isAllocated n = true := inv.grounded n (by
        have hpos := hheld n hn
        unfold Heap.debts
        omega)
      exact hc.tied hp.toCleared inv inv' hguard hw.torn (hheld n hn) fun hmissed =>
        hmissed.2.1 (.root (Heap.mem_rootNodes_of_source hs hsource hn halloc))

/-- A source designates two nodes without pinning them. One is held by an edge in a payload that
nothing refers to any more, the other by one in the payload of a root: a lite sweep frees the one
and not the other. -/
theorem source_tied_to_holders_split :
    ∃ h source r h', Visited .tidying h ∧ some 0 ∈ h.roots.external ∧
      h.sources[0]? = some source ∧ source.pins = false ∧ source.nodes = [0, 1] ∧
      (∀ n ∈ source.nodes, 0 < h.holders n) ∧
      liteSweep (runNested .free 0 1) 16 h = .ok r h' ∧ (∀ n ∈ source.nodes, h.Tied h' n) ∧
      h'.isAllocated 0 = false ∧ h'.isAllocated 1 = true := by
  have hplay : ((play .tidying [.allocate .bare .node [] none, .allocate .bare .node [] none,
      .source "s" [0, 1] false, .allocate (.edge "e") .node [0] none,
      .allocate (.root "r") .node [1] none, .drop "e"]).any fun h =>
        h.isInhibited = false ∧ h.Quiet ∧ 2 * h.nodes.size < 16 ∧ some 0 ∈ h.roots.external ∧
        h.sources[0]?.any (fun source => source.nodes = [0, 1] ∧ source.pins = false) ∧
        (∀ n ∈ [0, 1], 0 < h.holders n) ∧ Returns (liteSweep (runNested .free 0 1) 16) h fun _ h' =>
          h'.isAllocated 0 = false ∧ h'.isAllocated 1 = true) = true := by
    decide +kernel
  obtain ⟨h, hh, hfacts⟩ := (Option.any_eq_true _ _).1 hplay
  obtain ⟨hi, hquiet, hfuel, hs, hdesignates, hheld, hswept⟩ := of_decide_eq_true hfacts
  obtain ⟨source, hsource, hnodes⟩ := (Option.any_eq_true _ _).1 hdesignates
  obtain ⟨hnodes, hpins⟩ := of_decide_eq_true hnodes
  rw [← hnodes] at hheld
  have hv : Visited .tidying h := ⟨h, reached_of_play hh, .inl rfl⟩
  obtain ⟨-, hexact⟩ := source_tied_to_holders hs hsource hheld
  obtain ⟨⟨r, h', hrun, htied⟩, -⟩ := hexact hv hi hquiet .free 0 0 16 hfuel
  obtain ⟨hfreed, hkept⟩ := Leads.of_ok hswept hrun
  exact ⟨h, source, r, h', hv, hs, hsource, hpins, hnodes, hheld, hrun, htied, hfreed, hkept⟩

/-- A source designates a node without pinning it, and the node is held by an edge in a payload that
nothing refers to any more. A lite sweep frees it, and so does a full collection, which has marked
it. -/
theorem unpinned_source_freed :
    ∃ h source, Visited .tidying h ∧ some 0 ∈ h.roots.external ∧ h.sources[0]? = some source ∧
      source.pins = false ∧ source.nodes = [0] ∧ 0 < h.holders 0 ∧
      Returns (liteSweep (runNested .free 0 1) 16) h (fun _ h' => h'.isAllocated 0 = false) ∧
      Returns (markSweep (runNested .free 0 1) 16) h fun r h' =>
        r = { marked := 1, detached := 1, reclaimed := 2 } ∧ h'.isAllocated 0 = false := by
  have hplay : ((play .tidying [.allocate .bare .node [] none, .source "s" [0] false,
      .allocate (.edge "e") .node [0] none, .drop "e"]).any fun h =>
        some 0 ∈ h.roots.external ∧
        h.sources[0]?.any (fun source => source.nodes = [0] ∧ source.pins = false) ∧
        0 < h.holders 0 ∧
        Returns (liteSweep (runNested .free 0 1) 16) h (fun _ h' => h'.isAllocated 0 = false) ∧
        Returns (markSweep (runNested .free 0 1) 16) h fun r h' => r.marked = 1 ∧ r.detached = 1 ∧
          r.reclaimed = 2 ∧ h'.isAllocated 0 = false) = true := by
    decide +kernel
  obtain ⟨h, hh, hfacts⟩ := (Option.any_eq_true _ _).1 hplay
  obtain ⟨hs, hdesignates, hheld, hlite, hfull⟩ := of_decide_eq_true hfacts
  obtain ⟨source, hsource, hnodes⟩ := (Option.any_eq_true _ _).1 hdesignates
  obtain ⟨hnodes, hpins⟩ := of_decide_eq_true hnodes
  refine ⟨h, source, ⟨h, reached_of_play hh, .inl rfl⟩, hs, hsource, hpins, hnodes, hheld, hlite,
    hfull.mono ?_⟩
  rintro ⟨marked, detached, reclaimed⟩ h' ⟨rfl, rfl, rfl, hfreed⟩
  exact ⟨rfl, hfreed⟩

end Mutator

end HybridHeap
