import HybridHeap.Proofs.MarkingAfterSweep

/-!
# A lite sweep ahead of a full collection

A lite sweep just before a full collection makes no difference in the end. What the sweep would
reclaim, the full collection does not find: it drops the payloads of these nodes, the weak entries
keyed by them expire, nothing refers to them then, and its closing lite sweep reclaims them with
what it reclaims either way. So both ways the same is left, counted and queued alike, and the live
list is the list of what has been found, in the order of marking, without what the closing sweep
reclaims.
-/

namespace HybridHeap

open Collector Act

variable {law : Law} {w : Juncture} {h h' k l k' l' : Heap} {n : NodeId} {run : Runner}
variable {S : Set NodeId}

/-- The two ways to sweep a heap: `k` is what marking and sweeping leave of the heap itself, and `l`
what they leave of it after a lite sweep. No count comes near the greatest value. -/
structure Detour (law : Law) (w : Juncture) (h h' k l : Heap) : Prop where
  inv : Invariant law w h
  calm : w.Idle
  guard : w.guard = none
  torn : w.torn = false
  settled : h.Settled
  pinning : h.Pinning
  fresh : h.KeysFresh
  light : ∀ n, h.isAllocated n = true → (h.status n).count + h.pinned.count n < Status.countMax
  pruned : Pruned h h'
  direct : Condemned h.missed h k
  detour : Condemned h'.missed h' l
  invDirect : Invariant law { w with phase := .sweeping } k
  invDetour : Invariant law { w with phase := .sweeping } l

namespace Detour

variable (hd : Detour law w h h' k l)
include hd

/-! ## After marking and sweeping -/

/-- Garbage is missed unless it looks marked. -/
theorem mem_missed (hn : n ∈ h.garbage) (hs : h.isStale n = false) : n ∈ h.missed :=
  ⟨Heap.isAllocated_of_mem_garbage hd.inv hn,
    fun hfound => hfound.not_mem_garbage hd.inv hd.pinning hd.fresh hn, hs⟩

/-- The payloads of garbage have gone the direct way as well, and the entries keyed by it have
expired. -/
theorem left : Remains (h.missed ∪ h.garbage) (h.missed ∪ h.garbage) h k := by
  have hremains : Remains (h.missed ∪ h.garbage) h.missed h k := by
    refine hd.direct.widen Set.subset_union_left fun n hn hout => ?_
    have hmem := hn.resolve_left hout
    have halloc := Heap.isAllocated_of_mem_garbage hd.inv hmem
    -- What is on the live list does not look marked, and would have been missed.
    have hunlisted : n ∉ h.rings.toList liveList := fun hlisted =>
      hout (hd.mem_missed hmem (hd.settled.isStale_eq_false hlisted))
    exact (hd.inv.payload?_eq_none_of_unlisted hd.calm hd.settled halloc hunlisted).2
  refine hremains.rekey fun e he key hkey => or_iff_left_of_imp fun hmem => ?_
  exact hd.mem_missed hmem (hd.fresh e he key hmem hkey)

/-- The other way the garbage has gone first. -/
theorem right : Remains (h.missed ∪ h.garbage) (h.missed ∪ h.garbage) h l := by
  have hremains := hd.pruned.toRemains.trans hd.detour.toRemains
  have hall : h.garbage ∪ h'.missed = h.missed ∪ h.garbage := by
    rw [hd.pruned.missed_eq hd.inv hd.pinning hd.fresh, Set.union_sdiff_self, Set.union_comm]
  rwa [hall] at hremains

/-- So the same is left either way. -/
theorem same : Remains ∅ ∅ k l := hd.left.unique hd.right

/-- Either way the same nodes are pinned. -/
theorem pinned : k.pinned = h.pinned ∧ l.pinned = h.pinned :=
  ⟨hd.direct.pinned hd.direct.stage,
    (hd.detour.pinned hd.detour.stage).trans (hd.pruned.pinned hd.inv)⟩

/-- A lite sweep leaves a count that is lower by what went. -/
theorem count_pruned (hn : h.isAllocated n = true) :
    (h'.status n).count + h.holdersIn h.garbage n = (h.status n).count :=
  hd.pruned.count n (hd.light n hn)

/-- Counts that do not stick are the numbers of references, which are the same either way. -/
theorem count_eq (hn : h.isAllocated n = true) :
    (k.status n).count = k.debts w n ∧ (l.status n).count = k.debts w n := by
  have hlight := hd.light n hn
  have hpruned := hd.count_pruned hn
  have hdirect := hd.direct.le n
  have hdetour := hd.detour.le n
  have hleft := (hd.invDirect.count n hd.torn).resolve_left fun hsat => by
    rw [Status.isSaturated_iff] at hsat
    omega
  have hright := (hd.invDetour.count n hd.torn).resolve_left fun hsat => by
    rw [Status.isSaturated_iff] at hsat
    omega
  refine ⟨hleft, hright.trans ?_⟩
  show l.holders n + w.pins.count n + w.flight.count n = k.debts w n
  rw [hd.same.holders_eq]
  rfl

/-- No count sticks, also where the node is pinned. -/
theorem light_direct (hn : h.isAllocated n = true) :
    (k.status n).count + h.pinned.count n < Status.countMax := by
  have hlight := hd.light n hn
  have hle := hd.direct.le n
  omega

theorem isSaturated_eq (hn : h.isAllocated n = true) :
    (k.status n).isSaturated = false ∧ (l.status n).isSaturated = false := by
  have hlight := hd.light_direct hn
  obtain ⟨hleft, hright⟩ := hd.count_eq hn
  simp only [Bool.eq_false_iff, ne_eq, Status.isSaturated_iff]
  omega

/-- Nothing refers to garbage the direct way. -/
theorem count_eq_zero (hn : n ∈ h.garbage) : (k.status n).count = 0 := by
  have halloc := Heap.isAllocated_of_mem_garbage hd.inv hn
  have hheld := Heap.debts_of_mem_garbage hd.inv hn
  have hholders := hd.left.holders n
  have hmono := h.holdersIn_mono (S := h.garbage) (T := h.missed ∪ h.garbage)
    Set.subset_union_right n
  rw [(hd.count_eq halloc).1]
  unfold Heap.debts at hheld ⊢
  omega

/-- What is not pinned and nothing counts is queued either way or neither way, unless it is
garbage. -/
theorem mem_moribund_iff (hn : h.isAllocated n = true) (hout : n ∉ h.garbage)
    (hpinned : n ∉ h.pinned) (h0 : (k.status n).count = 0) :
    n ∈ k.moribund ↔ n ∈ l.moribund := by
  obtain ⟨hleft, hright⟩ := hd.count_eq hn
  have hunqueued : n ∉ h'.moribund := by
    rw [hd.pruned.queue, Heap.mem_uncountedAmong]
    exact fun hmem => hpinned hmem.1
  have hlisted : n ∈ h'.rings.toList liveList ∧ n ∈ h'.missed ↔
      n ∈ h.rings.toList liveList ∧ n ∈ h.missed := by
    rw [hd.pruned.lists, hd.pruned.missed_eq hd.inv hd.pinning hd.fresh]
    simp [hout]
  rw [hd.direct.queue n h0, hd.detour.queue n (by omega), hlisted, or_iff_right hunqueued]
  have hpruned := hd.count_pruned hn
  -- What the lite sweep leaves uncounted was neither queued nor counted, or it would be garbage.
  have hleftover : (h'.status n).count = 0 → ¬(n ∈ h.moribund ∨ 0 < (h.status n).count) := by
    intro hzero hqueued
    have hlight := hd.light n hn
    refine hout (Heap.mem_garbage hd.inv Set.Subset.rfl ⟨hpinned, ?_, by omega, ?_⟩)
    · rw [Status.isSaturated_eq_false_iff]
      omega
    · exact hqueued.imp_right fun hpos => by omega
  constructor
  · rintro (hq | hmem | hpos)
    · exact .inr (Nat.pos_of_ne_zero fun hzero => hleftover hzero (.inl hq))
    · exact .inl hmem
    · exact .inr (Nat.pos_of_ne_zero fun hzero => hleftover hzero (.inr hpos))
  · rintro (hmem | hpos)
    · exact .inr (.inl hmem)
    · exact .inr (.inr (by omega))

/-! ## What the closing sweeps find -/

/-- What goes with a set goes with it either way, unless it is garbage. -/
theorem reclaimable_iff (hn : h.isAllocated n = true) (hout : n ∉ h.garbage) :
    k.Reclaimable S n ↔ l.Reclaimable S n := by
  obtain ⟨hpinnedLeft, hpinnedRight⟩ := hd.pinned
  obtain ⟨hsatLeft, hsatRight⟩ := hd.isSaturated_eq hn
  obtain ⟨hleft, hright⟩ := hd.count_eq hn
  have hheld := hd.same.holdersIn_eq S n
  -- Where no holder went, nothing counts the node.
  have hqueue : n ∉ h.pinned → (k.status n).count = k.holdersIn S n →
      (n ∈ k.moribund ∨ 0 < k.holdersIn S n ↔ n ∈ l.moribund ∨ 0 < k.holdersIn S n) := by
    intro hpinned hcount
    by_cases hpos : 0 < k.holdersIn S n
    · simp [hpos]
    · rw [or_iff_left hpos, or_iff_left hpos]
      exact hd.mem_moribund_iff hn hout hpinned (by omega)
  constructor
  · rintro ⟨hpinned, -, hcount, hqueued⟩
    rw [hpinnedLeft] at hpinned
    refine ⟨hpinnedRight ▸ hpinned, hsatRight, by omega, ?_⟩
    rw [hheld]
    exact (hqueue hpinned hcount).1 hqueued
  · rintro ⟨hpinned, -, hcount, hqueued⟩
    rw [hpinnedRight] at hpinned
    rw [hheld] at hcount hqueued
    have hcount' : (k.status n).count = k.holdersIn S n := by omega
    exact ⟨hpinnedLeft ▸ hpinned, hsatLeft, hcount', (hqueue hpinned hcount').2 hqueued⟩

/-- What the other way still has storage after marking and sweeping had it before, and is no
garbage. -/
theorem isAllocated_detour (hn : l.isAllocated n = true) :
    h.isAllocated n = true ∧ n ∉ h.garbage :=
  hd.pruned.isAllocated_iff.1 (hd.detour.isAllocated.1 hn)

/-- With the garbage in a set the nodes that hold others the direct way are no more. -/
theorem holdersIn_union (S : Set NodeId) (n : NodeId) :
    k.holdersIn (h.garbage ∪ S) n = k.holdersIn S n := by
  have hmono := k.holdersIn_mono (Set.subset_union_right (s := h.garbage) (t := S)) n
  have hle := k.holdersIn_union_le h.garbage S n
  have hzero := hd.left.holdersIn_eq_zero (Set.subset_union_right (s := h.missed)) n
  omega

/-- The closing sweep finds the garbage too the direct way, and otherwise the same either way. -/
theorem garbage_eq : k.garbage = h.garbage ∪ l.garbage := by
  refine Set.Subset.antisymm (Heap.garbage_subset fun m hm => ?_)
    (Set.union_subset (fun m hm => ?_) (Heap.garbage_subset fun m hm => ?_))
  · by_cases hmem : m ∈ h.garbage
    · exact .inl hmem
    · have halloc := hd.direct.isAllocated.1 (hm.isAllocated hd.invDirect)
      have hleft : k.Reclaimable l.garbage m := by
        obtain ⟨hpinned, hsat, hcount, hqueued⟩ := hm
        rw [hd.holdersIn_union] at hcount hqueued
        exact ⟨hpinned, hsat, hcount, hqueued⟩
      exact .inr (Heap.mem_garbage hd.invDetour Set.Subset.rfl
        ((hd.reclaimable_iff halloc hmem).1 hleft))
  · have halloc := Heap.isAllocated_of_mem_garbage hd.inv hm
    have hold := Heap.reclaimable_of_mem_garbage hd.inv hm
    have h0 := hd.count_eq_zero hm
    have hnone := hd.left.holdersIn_eq_zero (Set.empty_subset _) m
    -- It was queued or counted, so the sweep has queued it now that nothing counts it.
    refine Heap.mem_garbage hd.invDirect (Set.empty_subset _)
      ⟨hd.pinned.1 ▸ hold.unpinned, (hd.isSaturated_eq halloc).1, by omega, .inl ?_⟩
    refine (hd.direct.queue m h0).2 (hold.queued.imp_right fun hpos => .inr ?_)
    rw [hold.count]
    exact hpos
  · obtain ⟨halloc, hout⟩ := hd.isAllocated_detour (hm.isAllocated hd.invDetour)
    exact Heap.mem_garbage hd.invDirect Set.Subset.rfl ((hd.reclaimable_iff halloc hout).2 hm)

/-- So its closing sweep reclaims as many nodes more as the lite sweep has reclaimed. -/
theorem ncard_garbage : k.garbage.ncard = h.garbage.ncard + l.garbage.ncard := by
  rw [hd.garbage_eq]
  refine Set.ncard_union_eq (Set.disjoint_right.2 fun n hn => ?_)
    (Heap.finite_garbage hd.inv) (Heap.finite_garbage hd.invDetour)
  exact (hd.isAllocated_detour (Heap.isAllocated_of_mem_garbage hd.invDetour hn)).2

end Detour

/-! ## After the closing sweeps -/

/-- The heaps have the same nodes with the same payloads and counts, attached in the same order, and
the same queue and the same roots. -/
structure Coincide (h k : Heap) : Prop where
  stage : k.stage = h.stage
  detached : ∀ n, h.isAllocated n = true → k.isDetached n = h.isDetached n
  payload : k.payload? = h.payload?
  count : ∀ n, h.isAllocated n = true → (k.status n).count = (h.status n).count
  live : k.rings.toList liveList = h.rings.toList liveList
  moribund : k.moribund = h.moribund
  roots : k.roots = h.roots

/-- When the closing sweeps have pruned what is left either way, the same is left. -/
theorem Detour.coincide (hd : Detour law w h h' k l) (hk : Pruned k k') (hl : Pruned l l')
    (horder : l.rings.toList liveList = k.rings.toList liveList) : Coincide k' l' := by
  have hgarbage := hd.garbage_eq
  -- The same has gone either way.
  have hsame : Remains ∅ ∅ k' l' := by
    have hleft := hd.left.trans hk.toRemains
    have hright := hd.right.trans hl.toRemains
    rw [hgarbage, ← Set.union_assoc, Set.union_assoc h.missed, Set.union_self] at hleft
    exact hleft.unique hright
  have hout : ∀ n ∉ k.garbage, n ∉ h.garbage ∧ n ∉ l.garbage := fun n hn => by
    rw [hgarbage] at hn
    exact not_or.1 hn
  have hkept : ∀ n, k'.isAllocated n = true → h.isAllocated n = true ∧ n ∉ k.garbage := fun n hn =>
    (hk.isAllocated_iff.1 hn).imp_left hd.direct.isAllocated.1
  have hcount : ∀ n, h.isAllocated n = true →
      (l'.status n).count = (k'.status n).count := fun n hn => by
    obtain ⟨hpinnedLeft, hpinnedRight⟩ := hd.pinned
    have hlight := hd.light_direct hn
    obtain ⟨hleft, hright⟩ := hd.count_eq hn
    have hcountLeft := hk.count n (by rwa [hpinnedLeft])
    have hcountRight := hl.count n (by rw [hpinnedRight]; omega)
    rw [hgarbage, hd.holdersIn_union] at hcountLeft
    rw [hd.same.holdersIn_eq] at hcountRight
    omega
  exact
    { stage := by
        funext n
        by_cases hmem : n ∈ k.garbage
        · rw [hk.freed n hmem]
          rw [hgarbage] at hmem
          by_cases hlate : n ∈ l.garbage
          · exact hl.freed n hlate
          · rw [hl.stage n hlate, hd.detour.stage]
            exact hd.pruned.freed n (hmem.resolve_right hlate)
        · obtain ⟨hearly, hlate⟩ := hout n hmem
          rw [hk.stage n hmem, hl.stage n hlate, hd.direct.stage, hd.detour.stage,
            hd.pruned.stage n hearly]
      detached := fun n hn => by
        obtain ⟨-, hmem⟩ := hkept n hn
        obtain ⟨hearly, hlate⟩ := hout n hmem
        rw [hk.detached n hmem, hl.detached n hlate, Bool.eq_iff_iff, hd.direct.detached,
          hd.detour.detached, hd.pruned.detached n hearly,
          hd.pruned.missed_eq hd.inv hd.pinning hd.fresh]
        simp [hearly]
      payload := funext fun n => hsame.payload n (Set.notMem_empty n)
      count := fun n hn => hcount n (hkept n hn).1
      live := by
        rw [hl.lists, hk.lists, horder]
        refine List.filter_congr fun n hn => decide_eq_decide.2 (not_congr ?_)
        rw [← horder] at hn
        rw [hgarbage, Set.mem_union,
          or_iff_right (hd.isAllocated_detour (hd.invDetour.listed _ n hn)).2]
      moribund := by
        rw [hl.queue, hk.queue, hd.pinned.1, hd.pinned.2]
        unfold Heap.uncountedAmong
        congr 1
        refine List.filter_congr fun n hn => ?_
        rw [hcount n (hd.inv.isAllocated_of_mem_pinned hn)]
      roots := hsame.roots_eq }

/-! ## The two ways -/

namespace Mutator

/-- A lite sweep just before a full collection changes nothing in the end. -/
theorem liteSweep_markSweep {terms : Terms} {bound depth fuel : Nat} (hv : Visited .tidying h)
    (hi : h.isInhibited = false) (hquiet : h.Quiet) (hpinning : h.Pinning)
    (hlight : ∀ n, h.isAllocated n = true →
      (h.status n).count + h.pinned.count n < Status.countMax)
    (hfresh : h.KeysFresh) (hfuel : 2 * h.nodes.size < fuel) :
    ∃ reclaimed h' r k r' l,
      liteSweep (runNested terms bound (depth + 1)) fuel h = .ok reclaimed h' ∧
      markSweep (runNested terms bound (depth + 1)) fuel h' = .ok r' l ∧
      markSweep (runNested terms bound (depth + 1)) fuel h = .ok r k ∧ Coincide k l ∧
      reclaimed + r'.reclaimed = r.reclaimed ∧ ∃ new new', k.pending = h.pending ++ new ∧
        l.pending = h.pending ++ new' ∧ new'.Perm new := by
  obtain ⟨w, hw, inv⟩ := hv.invariant
  have hidle := runNested_idle terms bound depth
  have hguard := guard_eq_none inv hi
  obtain ⟨_, h', hlite, rfl, inv', hpruned⟩ := returns_iff.1
    (liteSweep_prunes hidle hquiet rfl hw.idle hw.swept hw.torn inv hi hfuel)
  have hi' : h'.isInhibited = false :=
    (isInhibited_eq inv inv' hguard hguard hpruned.guards).trans hi
  have hfuel' : 2 * h'.nodes.size < fuel := by
    rw [hpruned.size]
    exact hfuel
  obtain ⟨_, k, hdirect, k₁, rfl, inv₁, hk₁, horder, -, hk⟩ := returns_iff.1
    (markSweep_condemns hidle hquiet rfl hw.idle hw.swept hw.torn hw.scarred inv hi hfuel)
  obtain ⟨_, l, hdetour, l₁, rfl, inv₂, hl₁, horder', -, hl⟩ := returns_iff.1
    (markSweep_condemns hidle (hpruned.quiet hquiet) rfl hw.idle hw.swept hw.torn hw.scarred inv'
      hi' hfuel')
  have hd : Detour .tidying w h h' k₁ l₁ := ⟨inv, hw.idle hguard, hguard, hw.torn,
    inv.settled hw.scarred (by simp [hguard]), hpinning, hfresh, hlight, hpruned, hk₁, hl₁, inv₁,
    inv₂⟩
  have hcoincide : Coincide k l := hd.coincide hk hl (by
    rw [horder, horder']
    exact hpruned.order_eq inv hpinning hfresh inv' (hw.idle hguard) hguard hw.scarred)
  have hleft := (handsOver_markSweep hidle fuel).of_ok hdirect
  have hright := trans_of HandsOver ((handsOver_liteSweep hidle fuel).of_ok hlite)
    ((handsOver_markSweep hidle fuel).of_ok hdetour)
  exact ⟨_, h', _, k, _, l, hlite, hdetour, hdirect, hcoincide, hd.ncard_garbage.symm,
    hleft.perm hright hquiet hcoincide.roots⟩

/-- A chain that is garbage with a weak value that hangs off it, and a node that was never referred
to: a lite sweep takes three nodes, the full collection after it the fourth, and the full collection
alone takes all. -/
theorem liteSweep_markSweep_chain :
    ∃ h h' r k r' l, Visited .tidying h ∧ h.nodeCount = 4 ∧
      liteSweep (runNested .free 0 1) 16 h = .ok 3 h' ∧
      markSweep (runNested .free 0 1) 16 h' = .ok r' l ∧
      markSweep (runNested .free 0 1) 16 h = .ok r k ∧ r.reclaimed = 4 ∧ Coincide k l ∧
      3 + r'.reclaimed = r.reclaimed ∧ ∃ new new', k.pending = h.pending ++ new ∧
        l.pending = h.pending ++ new' ∧ new'.Perm new := by
  have hplay : ((play .tidying [.allocate .bare .link [] none, .allocate (.root "a") .link [0] none,
      .allocate .bare .link [] none, .allocate .bare .link [] none, .weak "w" 1 (some 2) (some []),
      .drop "a"]).any fun h =>
        h.isInhibited = false ∧ h.Quiet ∧ 2 * h.nodes.size < 16 ∧ h.roots.external = #[] ∧
        h.nodeCount = 4 ∧
        (∀ n < h.nodes.size, (h.status n).count + h.pinned.count n < Status.countMax) ∧
        (∀ e ∈ h.roots.weak.toList, e.key.all (fun key => !h.isStale key) = true) ∧
        Returns (liteSweep (runNested .free 0 1) 16) h (fun reclaimed _ => reclaimed = 3) ∧
        Returns (markSweep (runNested .free 0 1) 16) h fun r _ => r.reclaimed = 4) = true := by
    decide +kernel
  obtain ⟨h, hh, hfacts⟩ := (Option.any_eq_true _ _).1 hplay
  obtain ⟨hi, hquiet, hfuel, hexternal, hcount, hlight, hkeys, hthree, hfour⟩ :=
    of_decide_eq_true hfacts
  have hv : Visited .tidying h := ⟨h, reached_of_play hh, .inl rfl⟩
  obtain ⟨reclaimed, h', r, k, r', l, hlite, hdetour, hdirect, hends⟩ :=
    liteSweep_markSweep hv hi hquiet (Heap.pinning_of_external hexternal)
      (fun n hn => hlight n (Heap.lt_size_of_isAllocated hn)) (Heap.keysFresh_of_all hkeys) hfuel
  obtain rfl : reclaimed = 3 := Leads.of_ok hthree hlite
  exact ⟨h, h', r, k, r', l, hv, hcount, hlite, hdetour, hdirect, Leads.of_ok hfour hdirect, hends⟩

/-- Two nodes hold each other, and one of them is the value of a weak entry whose key is a node that
was detached before the entry was made and looks marked to the next full collection. When nothing
refers to the key any more, a full collection takes the key for marked and leaves the two nodes. A
lite sweep takes the key and the entry, and the full collection after it takes the two nodes. -/
theorem liteSweep_ahead_matters :
    ∃ h reclaimed h' r' l r k, Visited .tidying h ∧ h.isInhibited = false ∧ h.Quiet ∧
      h.roots.external = #[] ∧ (∀ n p, h.payload? n = some p → p.borrowed = false) ∧
      (∀ n, h.isAllocated n = true → (h.status n).count + h.pinned.count n < Status.countMax) ∧
      liteSweep (runNested .free 0 1) 16 h = .ok reclaimed h' ∧
      markSweep (runNested .free 0 1) 16 h' = .ok r' l ∧
      markSweep (runNested .free 0 1) 16 h = .ok r k ∧ l.isAllocated 1 = false ∧
      k.isAllocated 1 = true ∧ reclaimed + r'.reclaimed ≠ r.reclaimed := by
  have hplay : ((play .tidying [.allocate (.edge "e") .node [] none, .full,
      .allocate .bare .node [] none, .allocate .bare .node [1] none, .link 1 2 false false,
      .weak "w" 0 (some 1) none, .drop "e"]).any fun h =>
        h.isInhibited = false ∧ h.Quiet ∧ h.roots.external = #[] ∧
        (∀ n < h.nodes.size, (h.status n).count + h.pinned.count n < Status.countMax ∧
          (h.payload? n).all (!·.borrowed) = true) ∧
        Returns (liteSweep (runNested .free 0 1) 16) h (fun reclaimed h' =>
          Returns (markSweep (runNested .free 0 1) 16) h' fun r' l =>
            reclaimed + r'.reclaimed = 3 ∧ l.isAllocated 1 = false) ∧
        Returns (markSweep (runNested .free 0 1) 16) h fun r k =>
          r.reclaimed = 1 ∧ k.isAllocated 1 = true) = true := by
    decide +kernel
  obtain ⟨h, hh, hfacts⟩ := (Option.any_eq_true _ _).1 hplay
  obtain ⟨hi, hquiet, hexternal, hnodes, hahead, halone⟩ := of_decide_eq_true hfacts
  obtain ⟨reclaimed, h', hlite, hthen⟩ := returns_iff.1 hahead
  obtain ⟨r', l, hdetour, hthree, hgone⟩ := returns_iff.1 hthen
  obtain ⟨r, k, hdirect, hone, hleft⟩ := returns_iff.1 halone
  refine ⟨h, reclaimed, h', r', l, r, k, ⟨h, reached_of_play hh, .inl rfl⟩, hi, hquiet, hexternal,
    fun n p hp => ?_, fun n hn => (hnodes n (Heap.lt_size_of_isAllocated hn)).1, hlite, hdetour,
    hdirect, hgone, hleft, by omega⟩
  have hlt : n < h.nodes.size := Heap.lt_size_of_payload (by simp [hp])
  have hborrowed := (hnodes n hlt).2
  rw [hp] at hborrowed
  simpa using hborrowed

end Mutator

end HybridHeap
