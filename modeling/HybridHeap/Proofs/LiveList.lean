import HybridHeap.Proofs.Checking
import HybridHeap.Proofs.Sweeping

/-!
# What is on the live list

While no destructor runs, no collection is under way, and every node that has its payload is on the
live list. A node that has lost its payload may still be referred to, and then it keeps its storage
on or off the list. A check of the heap counts the nodes on the list, so what it says depends on
that alone.

Marking is what puts such a node back on the list. The sweep that drops the payload of a node leaves
the mark bit as it is, so that the bit differs from the cycle after one full collection and equals
it after the next. A node that is found passes for marked, or is marked and counted, by what is left
of that.
-/

namespace HybridHeap

open Collector Act

-- Unification would run marking where it only has to name it.
attribute [local irreducible] Collector.mark

variable {law : Law} {w : Juncture} {h h' : Heap} {n : NodeId}

namespace Heap

/-- The nodes that have storage, by number. -/
def allocated (h : Heap) : List NodeId := (List.range h.nodes.size).filter h.isAllocated

theorem mem_allocated : n ∈ h.allocated ↔ h.isAllocated n = true := by
  unfold allocated
  rw [List.mem_filter, List.mem_range]
  exact ⟨And.right, fun hn => ⟨lt_size_of_isAllocated hn, hn⟩⟩

theorem nodup_allocated (h : Heap) : h.allocated.Nodup := List.nodup_range.filter _

/-- The number of nodes that have storage is what it says. -/
theorem allocatedCount_eq_length (h : Heap) : h.allocatedCount = h.allocated.length := by
  have hnodes : h.nodes.toList.map (fun node => if node.stage = .allocated then 1 else 0) =
      (List.range h.nodes.size).map fun n => if h.isAllocated n = true then 1 else 0 := by
    apply List.ext_getElem
    · simp
    · intro i hi _
      have hlt : i < h.nodes.size := by simpa using hi
      simp [isAllocated, hlt]
  unfold allocatedCount allocated
  rw [hnodes]
  induction List.range h.nodes.size with
  | nil => rfl
  | cons n ns ih =>
    rw [List.map_cons, List.sum_cons, ih, List.filter_cons]
    split_ifs
    · rw [List.length_cons, Nat.add_comm]
    · exact Nat.zero_add _

/-- The node has storage and is not on the live list. -/
def Strays (h : Heap) (n : NodeId) : Prop := h.isAllocated n = true ∧ n ∉ h.rings.toList liveList

/-- The number of nodes on the live list whose moribund flag is set. -/
def flaggedLive (h : Heap) : Nat :=
  (h.rings.toList liveList).countP fun n => (h.status n).contains .moribund

/-- The number of nodes on the live list whose count has always been zero. -/
def virginsLive (h : Heap) : Nat :=
  (h.rings.toList liveList).countP fun n => !(h.status n).contains .referenced

end Heap

/-- A list without repetition that is contained in another one has its length if and only if it
contains it. -/
theorem length_eq_iff_subset {as bs : List NodeId} (has : as.Nodup) (hbs : bs.Nodup)
    (hsub : as ⊆ bs) : as.length = bs.length ↔ bs ⊆ as := by
  constructor
  · intro hlen
    have hperm := (List.subperm_of_subset has hsub).perm_of_length_le hlen.ge
    exact hperm.symm.subset
  · intro hsub'
    apply Nat.le_antisymm
    · exact (List.subperm_of_subset has hsub).length_le
    · exact (List.subperm_of_subset hbs hsub').length_le

/-! ## Checking a heap -/

section

variable (inv : Invariant law w h)

include inv

/-- There are no more nodes on the live list than have storage. -/
theorem Invariant.length_live_le : (h.rings.toList liveList).length ≤ h.nodeCount := by
  have hsub : h.rings.toList liveList ⊆ h.allocated := fun n hn =>
    Heap.mem_allocated.2 (inv.listed liveList n hn)
  rw [inv.nodeCount, h.allocatedCount_eq_length]
  exact (List.subperm_of_subset (inv.rings.nodup liveList) hsub).length_le

/-- There are as many nodes on the live list as have storage if and only if none strays. -/
theorem Invariant.length_live_eq_iff :
    (h.rings.toList liveList).length = h.nodeCount ↔ ∀ n, ¬h.Strays n := by
  have hsub : h.rings.toList liveList ⊆ h.allocated := fun n hn =>
    Heap.mem_allocated.2 (inv.listed liveList n hn)
  rw [inv.nodeCount, h.allocatedCount_eq_length,
    length_eq_iff_subset (inv.rings.nodup liveList) h.nodup_allocated hsub]
  constructor
  · rintro hall n ⟨halloc, hout⟩
    exact hout (hall (Heap.mem_allocated.2 halloc))
  · intro hnone n hn
    by_contra hout
    exact hnone n ⟨Heap.mem_allocated.1 hn, hout⟩

/-- As many nodes on the live list have their moribund flag set as are queued if and only if no
queued node strays. -/
theorem Invariant.flaggedLive_eq_iff :
    h.flaggedLive = h.moribund.length ↔
      ∀ n, h.Strays n → (h.status n).contains .moribund = false := by
  have hfilter : h.flaggedLive =
      ((h.rings.toList liveList).filter fun n => (h.status n).contains .moribund).length :=
    List.countP_eq_length_filter
  have hsub : (h.rings.toList liveList).filter (fun n => (h.status n).contains .moribund) ⊆
      h.moribund := by
    intro n hn
    obtain ⟨hlive, hflag⟩ := List.mem_filter.1 hn
    exact (inv.mem_moribund n).2 ⟨inv.listed liveList n hlive, hflag⟩
  rw [hfilter, length_eq_iff_subset ((inv.rings.nodup liveList).filter _) inv.nodup_moribund hsub]
  constructor
  · rintro hall n ⟨halloc, hout⟩
    rw [Bool.eq_false_iff]
    intro hflag
    have hmem := hall ((inv.mem_moribund n).2 ⟨halloc, hflag⟩)
    exact hout (List.mem_of_mem_filter hmem)
  · intro hnone n hn
    obtain ⟨halloc, hflag⟩ := (inv.mem_moribund n).1 hn
    rw [List.mem_filter]
    refine ⟨?_, hflag⟩
    by_contra hout
    rw [hnone n ⟨halloc, hout⟩] at hflag
    cases hflag

/-- Checking a heap in which no collection is under way compares numbers of nodes: those on the live
list with those that have storage, and those on it that have their flag set with those queued. -/
theorem Invariant.check_eq (hphase : h.phase = .idle) (hempty : h.rings.toList reachableList = []) :
    check h =
      if h.flaggedLive ≠ h.moribund.length then
        .error (.moribundCountMismatch h.flaggedLive h.moribund.length)
      else if (h.rings.toList liveList).length ≠ h.nodeCount then
        .error (.nodeCountMismatch h.nodeCount (h.rings.toList liveList).length)
      else .ok
        { live := (h.rings.toList liveList).length
          moribund := h.moribund.length
          virgins := h.virginsLive } := by
  have hlists : liveList < h.rings.sentinels.size ∧ reachableList < h.rings.sentinels.size := by
    rw [inv.size_sentinels]
    decide
  have hreachable : h.rings.isEmpty reachableList = true := by
    have hpath := Rings.Holds.path inv.rings reachableList hlists.2
    rw [hempty] at hpath
    have hnext : h.rings.next (.sentinel reachableList) = .sentinel reachableList := hpath
    unfold Rings.isEmpty
    rw [hnext]
    exact beq_self_eq_true _
  have hlinked := Rings.Holds.linked inv.rings
  have hroom : 0 + (h.rings.toList liveList).length ≤ h.nodeCount := by
    rw [Nat.zero_add]
    exact inv.length_live_le
  have hlive : walkLive h (h.nodeCount + 2) (h.rings.next (.sentinel liveList)) ⟨0, 0, 0⟩ =
      .ok (Walked.after h ⟨0, 0, 0⟩ (h.rings.toList liveList)) :=
    (walkLive_eq_ok_iff (Nat.zero_le _) (by dsimp only; omega)).2
      ⟨_, Rings.Holds.path inv.rings liveList hlists.1,
        fun _ _ => Rings.isConsistent_iff.2 ⟨hlinked.prev_next _, hlinked.next_prev _⟩, hroom, rfl⟩
  have hqueue : walkMoribund h [] h.moribund.reverse = .ok () :=
    walkMoribund_eq_ok_iff.2 ⟨List.nodup_reverse.2 inv.nodup_moribund,
      fun n hn => ((inv.mem_moribund n).1 (List.mem_reverse.1 hn)).2, fun _ _ => List.not_mem_nil⟩
  have hseen : Walked.after h ⟨0, 0, 0⟩ (h.rings.toList liveList) =
      ⟨(h.rings.toList liveList).length, h.virginsLive, h.flaggedLive⟩ := by
    simp [Walked.after, Heap.virginsLive, Heap.flaggedLive]
  rw [check_of_walks hphase hreachable hlive hqueue, hseen]

end

namespace Mutator

variable {k : Heap} {held : List (NodeId × Nat)}

/-- While no destructor runs, no collection is under way and no node has been taken off its list. -/
theorem Visited.still (hk : Visited law k) (hdying : k.dying = []) :
    ∃ w, Invariant law w k ∧ w.guard = none ∧ w.loose = [] ∧ k.phase = .idle ∧
      k.rings.toList reachableList = [] := by
  obtain ⟨w, hwhole, inv⟩ := hk.invariant
  obtain ⟨hguard, hcollecting, hloose⟩ := hwhole.still (inv.dying.symm.trans hdying)
  have hphase : k.phase = .idle :=
    (inv.phase hwhole.torn).trans (hwhole.calm hguard hcollecting)
  have hempty : k.rings.toList reachableList = [] :=
    (inv.settled hwhole.scarred (by simp [hguard])).1
  exact ⟨w, inv, hguard, hloose, hphase, hempty⟩

/-- In every heap that a mutator comes to without a fatal error while no destructor runs, the
collector is idle, the queue has each node once whose flag is set, and the node count is right. A
node that strays from the live list has lost its payload, and the check succeeds exactly if none
strays. Otherwise it misses queued nodes, if one of those that stray is queued, or else nodes. -/
theorem check_ok_iff_no_strays (hk : Visited .honest k) (hdying : k.dying = []) :
    k.phase = .idle ∧ k.rings.toList reachableList = [] ∧
    (k.moribund.Nodup ∧ ∀ n, n ∈ k.moribund ↔
      k.isAllocated n = true ∧ (k.status n).contains .moribund = true) ∧
    k.nodeCount = k.allocated.length ∧
    (∀ n, k.Strays n → k.isDetached n = true) ∧
    ((∃ report, check k = .ok report) ↔ ∀ n, ¬k.Strays n) ∧
    ((∃ n, k.Strays n ∧ (k.status n).contains .moribund = true) →
      check k = .error (.moribundCountMismatch k.flaggedLive k.moribund.length)) ∧
    ((∃ n, k.Strays n) → (∀ n, k.Strays n → (k.status n).contains .moribund = false) →
      check k = .error (.nodeCountMismatch k.nodeCount (k.rings.toList liveList).length)) := by
  obtain ⟨w, inv, -, hloose, hphase, hempty⟩ := hk.still hdying
  have hflagged := inv.flaggedLive_eq_iff
  have hlength := inv.length_live_eq_iff
  have hcheck := inv.check_eq hphase hempty
  have hdetached : ∀ n, k.Strays n → k.isDetached n = true := by
    rintro n ⟨halloc, hout⟩
    by_contra hattached
    have hon := inv.attached n (by simp [hloose]) halloc (by simpa using hattached)
    rw [hempty] at hon
    exact hout (hon.resolve_right List.not_mem_nil)
  refine ⟨hphase, hempty, ⟨inv.nodup_moribund, inv.mem_moribund⟩,
    inv.nodeCount.trans k.allocatedCount_eq_length, hdetached, ?_, ?_, ?_⟩
  · constructor
    · rintro ⟨report, hok⟩
      rw [hcheck] at hok
      split_ifs at hok with hmissed hcount
      exact hlength.1 (not_not.1 hcount)
    · intro hnone
      have hall : k.flaggedLive = k.moribund.length := hflagged.2 fun n hn => absurd hn (hnone n)
      rw [hcheck, if_neg (not_not.2 hall), if_neg (not_not.2 (hlength.2 hnone))]
      exact ⟨_, rfl⟩
  · -- The queue is compared first, so a queued node that strays shows there.
    rintro ⟨n, hn, hflag⟩
    have hmissed : k.flaggedLive ≠ k.moribund.length := by
      intro hall
      rw [hflagged.1 hall n hn] at hflag
      cases hflag
    rw [hcheck, if_pos hmissed]
  · rintro ⟨n, hn⟩ hunqueued
    have hcount : (k.rings.toList liveList).length ≠ k.nodeCount := by
      intro hall
      exact hlength.1 hall n hn
    rw [hcheck, if_neg (not_not.2 (hflagged.2 hunqueued)), if_pos hcount]

/-- A node whose payload a full collection has dropped while an edge to it was held strays, and the
check misses it. -/
theorem check_ok_iff_no_strays_held :
    ∃ k, Visited .honest k ∧ k.dying = [] ∧ k.Strays 0 ∧ k.isDetached 0 = true ∧
      check k = .error (.nodeCountMismatch 1 0) := by
  have hplay : ((play .honest [.allocate (.edge "a") .node [] none, .full]).any fun k =>
      k.dying = [] ∧ k.nodes.size = 1 ∧ k.isAllocated 0 = true ∧ k.rings.toList liveList = [] ∧
        (k.status 0).contains .moribund = false ∧ k.nodeCount = 1) = true := by
    decide +kernel
  obtain ⟨k, hplayed, hfacts⟩ := (Option.any_eq_true _ _).1 hplay
  obtain ⟨hdying, hsize, halloc, hlive, hflag, hcount⟩ := of_decide_eq_true hfacts
  have hk : Visited .honest k := ⟨k, reached_of_play hplayed, .inl rfl⟩
  have hstrays : k.Strays 0 := ⟨halloc, by simp [hlive]⟩
  have hunqueued : ∀ n, k.Strays n → (k.status n).contains .moribund = false := by
    rintro n ⟨hn, -⟩
    have hlt := Heap.lt_size_of_isAllocated hn
    rw [hsize, Nat.lt_one_iff] at hlt
    rwa [hlt]
  obtain ⟨-, -, -, -, hdetached, -, -, hmismatch⟩ := check_ok_iff_no_strays hk hdying
  have hcheck := hmismatch ⟨0, hstrays⟩ hunqueued
  rw [hcount, hlive] at hcheck
  exact ⟨k, hk, hdying, hstrays, hdetached 0 hstrays, hcheck⟩

/-! ## Nodes that have lost their payload -/

/-- Between the steps of the mutator every node that has its payload is on the live list, and what
is there has storage and is not stale. After the mark and sweep of a full collection just those
nodes are there that were found and not stale when it began, whether they had their payload or not,
and all of them have been counted as marked. -/
theorem mem_liveList_iff (hr : Ran (fun _ => false) held h) :
    (∀ n, h.Attached n → n ∈ h.rings.toList liveList) ∧
    (∀ n ∈ h.rings.toList liveList, h.isAllocated n = true ∧ h.isStale n = false) ∧
    ∀ fuel depth found h', markAndSweep (runNested .free fuel depth) fuel h = .ok found h' →
      found.1 = {n | h.Found n ∧ h.isStale n = false}.ncard ∧
      ∀ n, n ∈ h'.rings.toList liveList ↔ h.Found n ∧ h.isStale n = false := by
  have inv := hr.unscarred
  obtain ⟨hempty, hmarks⟩ := inv.settled rfl (by simp [Juncture.resumed, Juncture.rest])
  refine ⟨fun n hn => ?_, fun n hn => ?_, fun fuel depth found h' hrun => ?_⟩
  · have hon := inv.attached n List.not_mem_nil hn.1 hn.2
    rw [hempty] at hon
    exact hon.resolve_right List.not_mem_nil
  · refine ⟨inv.listed liveList n hn, ?_⟩
    show ((h.status n).contains .mark == !h.cycle) = false
    rw [hmarks n hn]
    cases h.cycle <;> rfl
  · have hsweep := markAndSweep_lists (runNested_keeps (Terms.keep_free false) fuel depth) fuel
      ((Juncture.ready_resumed false held).idle rfl) rfl inv
    obtain ⟨-, hmarked, hlists⟩ := hsweep.of_ok hrun
    refine ⟨hmarked, fun n => ?_⟩
    rw [hlists.live, hempty, or_iff_right List.not_mem_nil]

/-- A node that lost its payload two collections ago and is rooted since is found by the next, which
puts it on the live list. -/
theorem mem_liveList_iff_rooted :
    ∃ h found h', Ran (fun _ => false) [] h ∧ h.isDetached 0 = true ∧
      markAndSweep (runNested .free 9 9) 9 h = .ok found h' ∧
      0 ∈ h'.rings.toList liveList ∧ h.Found 0 ∧ h.isStale 0 = false := by
  have hresume : ((resume (fun _ => false) [.allocate (.edge "a") .node [] none, .full,
      .rootFrom "b" "a", .full]).any
        fun h => h.isDetached 0 = true ∧ Returns (markAndSweep (runNested .free 9 9) 9) h
          fun _ h' => 0 ∈ h'.rings.toList liveList) = true := by
    decide +kernel
  obtain ⟨h, hh, hfacts⟩ := (Option.any_eq_true _ _).1 hresume
  obtain ⟨hdetached, hsweep⟩ := of_decide_eq_true hfacts
  obtain ⟨found, h', hrun, hlive⟩ := returns_iff.1 hsweep
  have hr : Ran (fun _ => false) [] h := ran_of_resume hh
  obtain ⟨-, -, hlisted⟩ := mem_liveList_iff hr
  obtain ⟨hfound, hfresh⟩ := ((hlisted 9 9 found h' hrun).2 0).1 hlive
  exact ⟨h, found, h', hr, hdetached, hrun, hlive, hfound, hfresh⟩

/-- A node that has lost its payload and is rooted is counted as marked and put on the live list,
and when the root has gone the next full collection counts it as detached again, though nothing
befalls it then. -/
theorem detached_listed_again :
    ∃ h a h', Reached .honest h ∧ h.dying = [] ∧ h.isAllocated 0 = true ∧
      h.isDetached 0 = true ∧ 0 ∈ h.rings.toList liveList ∧ h.stats.lastMarked = 1 ∧
      answer (.under .honest) (runNested (.under .honest) 9 9) 9 .full h = .ok a h' ∧
      h'.stats.totalDetached = h.stats.totalDetached + 1 ∧ h'.fates 0 = h.fates 0 := by
  have hplay : ((play .honest [.allocate (.edge "a") .node [] none, .full, .rootFrom "b" "a",
      .full, .full, .drop "b"]).any
        fun h => (h.dying = [] ∧ h.isAllocated 0 = true ∧ h.isDetached 0 = true ∧
          0 ∈ h.rings.toList liveList ∧ h.stats.lastMarked = 1) ∧
          Returns (answer (.under .honest) (runNested (.under .honest) 9 9) 9 .full) h
            fun _ h' => h'.stats.totalDetached = h.stats.totalDetached + 1 ∧
              h'.fates 0 = h.fates 0) = true := by
    decide +kernel
  obtain ⟨h, hh, hfacts⟩ := (Option.any_eq_true _ _).1 hplay
  obtain ⟨⟨hdying, halloc, hdetached, hlive, hmarked⟩, hfull⟩ := of_decide_eq_true hfacts
  obtain ⟨a, h', hrun, hcounted, hfates⟩ := returns_iff.1 hfull
  exact ⟨h, a, h', reached_of_play hh, hdying, halloc, hdetached, hlive, hmarked, hrun, hcounted,
    hfates⟩

end Mutator

end HybridHeap
