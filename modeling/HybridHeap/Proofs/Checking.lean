import HybridHeap.Collector.Check
import HybridHeap.Proofs.Links

/-!
# What a check of a heap establishes

A check assumes nothing of the heap, so nothing is assumed of it here: the links may lead anywhere,
and the flags, the node count and the queue may be wrong. The walk over the live list ends within
one visit more than there should be nodes. It gets back to the sentinel only if it has seen each
node once, and as it asks both neighbours of every node it meets, the way back is the same way.

It does not ask the neighbours of the sentinel, nor whether a queued node is on the list. So another
link may also lead to the first node, and then the way back may go on along it; and of the queue and
the flags it is known only that they agree in number.
-/

namespace HybridHeap

open Collector

variable {h : Heap} {x : Link} {n : NodeId} {ns met : List NodeId} {fuel : Nat} {seen : Walked}

/-! ## The walks -/

namespace Rings

variable {r : Rings}

theorem isConsistent_iff :
    r.isConsistent x = true ↔ r.prev (r.next x) = x ∧ r.next (r.prev x) = x := by
  unfold isConsistent
  rw [Bool.and_eq_true, beq_iff_eq, beq_iff_eq]

end Rings

namespace Collector

/-- What the walk over the live list has seen after some more nodes. -/
def Walked.after (h : Heap) (seen : Walked) (ns : List NodeId) : Walked where
  live := seen.live + ns.length
  virgins := seen.virgins + ns.countP fun n => !(h.status n).contains .referenced
  flagged := seen.flagged + ns.countP fun n => (h.status n).contains .moribund

/-- What has been seen after a node and the nodes behind it. -/
theorem Walked.after_cons (h : Heap) (seen : Walked) (n : NodeId) (ns : List NodeId) :
    seen.after h (n :: ns) = Walked.after h
      { live := seen.live + 1
        virgins := seen.virgins + if (h.status n).contains .referenced then 0 else 1
        flagged := seen.flagged + if (h.status n).contains .moribund then 1 else 0 } ns := by
  unfold Walked.after
  rw [List.countP_cons, List.countP_cons, List.length_cons, Walked.mk.injEq]
  dsimp only
  refine ⟨by omega, ?_, by omega⟩
  cases (h.status n).contains .referenced with
  | false =>
    simp only [Bool.not_false, if_true, Bool.false_eq_true, if_false]
    omega
  | true => simp

/-- With a step left for every node that there may still be, the walk finds nothing wrong if and
only if it gets back to the sentinel past nodes with consistent links, no more of them than there
should be. -/
theorem walkLive_eq_ok_iff {seen' : Walked} (hseen : seen.live ≤ h.nodeCount)
    (hfuel : h.nodeCount + 1 < seen.live + fuel) :
    walkLive h fuel (h.rings.next x) seen = .ok seen' ↔
      ∃ ns, Rings.Path h.rings.next x ns (.sentinel liveList) ∧
        (∀ n ∈ ns, h.rings.isConsistent (.node n) = true) ∧
        seen.live + ns.length ≤ h.nodeCount ∧ seen' = seen.after h ns := by
  -- On the steps left: they are used up only when more nodes have been seen than there may be.
  induction fuel generalizing x seen with
  | zero => omega
  | succ fuel ih =>
    unfold walkLive
    cases hx : h.rings.next x with
    | sentinel l =>
      by_cases hl : l = liveList
      · subst hl
        rw [if_pos rfl, Except.ok.injEq]
        constructor
        · rintro rfl
          exact ⟨[], hx, by simp, hseen, rfl⟩
        · rintro ⟨ns, hpath, -, -, rfl⟩
          have hnil : Rings.Path h.rings.next x [] (.sentinel liveList) := hx
          rw [hpath.unique hnil]
          rfl
      · rw [if_neg (by simpa using hl)]
        dsimp only
        refine iff_of_false (by split_ifs <;> simp) ?_
        rintro ⟨ns, hpath, -⟩
        cases ns with
        | nil => exact hl (Link.sentinel.inj (hx.symm.trans hpath))
        | cons n ns => cases hx.symm.trans hpath.1
    | node n =>
      -- A path from here on visits this node first.
      have hcons : ∀ {Q : List NodeId → Prop},
          (∃ ns, Rings.Path h.rings.next x ns (.sentinel liveList) ∧ Q ns) ↔
            ∃ ns, Rings.Path h.rings.next (.node n) ns (.sentinel liveList) ∧ Q (n :: ns) := by
        intro Q
        constructor
        · rintro ⟨ns, hpath, hQ⟩
          cases ns with
          | nil => cases hx.symm.trans (show h.rings.next x = .sentinel liveList from hpath)
          | cons m ns =>
            obtain ⟨hm, hpath⟩ := hpath
            cases hx.symm.trans hm
            exact ⟨ns, hpath, hQ⟩
        · rintro ⟨ns, hpath, hQ⟩
          exact ⟨n :: ns, ⟨hx, hpath⟩, hQ⟩
      rw [if_neg (by simp), hcons]
      dsimp only
      by_cases hroom : h.nodeCount < seen.live + 1
      · rw [if_pos hroom]
        refine iff_of_false (by simp) ?_
        rintro ⟨ns, -, -, hlen, -⟩
        rw [List.length_cons] at hlen
        omega
      rw [if_neg hroom]
      cases hn : h.rings.isConsistent (.node n) with
      | false =>
        refine iff_of_false (by simp) ?_
        rintro ⟨ns, -, hns, -⟩
        cases hn.symm.trans (hns n List.mem_cons_self)
      | true =>
        rw [if_neg (by simp), ih (by dsimp only; omega) (by dsimp only; omega)]
        refine exists_congr fun ns => and_congr_right fun _ => ?_
        rw [List.forall_mem_cons, Walked.after_cons, List.length_cons]
        dsimp only
        rw [and_iff_right hn, Nat.add_assoc, Nat.add_comm 1]

/-- The walk ends by itself: more steps would not change what it comes to. -/
theorem walkLive_add (more : Nat) (hseen : seen.live ≤ h.nodeCount)
    (hfuel : h.nodeCount + 1 < seen.live + fuel) :
    walkLive h (fuel + more) x seen = walkLive h fuel x seen := by
  induction fuel generalizing x seen with
  | zero => omega
  | succ fuel ih =>
    rw [Nat.add_right_comm]
    unfold walkLive
    by_cases hend : x = .sentinel liveList
    · rw [if_pos hend, if_pos hend]
    rw [if_neg hend, if_neg hend]
    dsimp only
    by_cases hroom : h.nodeCount < seen.live + 1
    · rw [if_pos hroom, if_pos hroom]
    rw [if_neg hroom, if_neg hroom]
    cases x with
    | sentinel l => rfl
    | node n =>
      dsimp only
      rw [ih (by dsimp only; omega) (by dsimp only; omega)]

/-- Nothing is wrong with the queue if and only if its nodes have their flag set and none is queued
twice. -/
theorem walkMoribund_eq_ok_iff :
    walkMoribund h met ns = .ok () ↔
      ns.Nodup ∧ (∀ n ∈ ns, (h.status n).contains .moribund = true) ∧ ∀ n ∈ ns, n ∉ met := by
  -- On the queue, with whatever has been met before.
  induction ns generalizing met with
  | nil => simp [walkMoribund]
  | cons n ns ih =>
    unfold walkMoribund
    rw [List.nodup_cons, List.forall_mem_cons, List.forall_mem_cons]
    split_ifs with hclear hmet
    · refine iff_of_false (by simp) fun ⟨_, ⟨hflag, _⟩, _⟩ => ?_
      rw [hflag] at hclear
      cases hclear
    · exact iff_of_false (by simp) fun ⟨_, _, hnew, _⟩ => hnew (by simpa using hmet)
    · have hflag : (h.status n).contains .moribund = true := by simpa using hclear
      have hnew : n ∉ met := by simpa using hmet
      rw [ih]
      constructor
      · rintro ⟨hnodup, hflags, hnews⟩
        exact ⟨⟨fun hn => hnews n hn List.mem_cons_self, hnodup⟩, ⟨hflag, hflags⟩, hnew,
          fun m hm hmem => hnews m hm (List.mem_cons_of_mem n hmem)⟩
      · rintro ⟨⟨hn, hnodup⟩, ⟨-, hflags⟩, -, hnews⟩
        refine ⟨hnodup, hflags, fun m hm hmem => ?_⟩
        obtain rfl | hmem := List.mem_cons.1 hmem
        · exact hn hm
        · exact hnews m hm hmem

end Collector

/-! ## The check -/

/-- What a check verifies of the nodes that it meets on the live list, and of the queue. -/
structure Heap.Checked (h : Heap) (ns : List NodeId) : Prop where
  /-- No node has been found reachable by a full collection that is over. -/
  settled : h.rings.isEmpty reachableList = true
  path : Rings.Path h.rings.next (.sentinel liveList) ns (.sentinel liveList)
  consistent : ∀ n ∈ ns, h.rings.isConsistent (.node n) = true
  length : ns.length = h.nodeCount
  queued_once : h.moribund.Nodup
  flagged : ∀ n ∈ h.moribund, (h.status n).contains .moribund = true
  count : ns.countP (fun n => (h.status n).contains .moribund) = h.moribund.length

/-- What a check reports of these nodes. -/
def Heap.checkReport (h : Heap) (ns : List NodeId) : CheckReport where
  live := ns.length
  moribund := h.moribund.length
  virgins := ns.countP fun n => !(h.status n).contains .referenced

namespace Collector

/-- Once both walks have found nothing wrong, a check compares numbers. -/
theorem check_of_walks (hidle : h.phase = .idle) (hsettled : h.rings.isEmpty reachableList = true)
    (hlive : walkLive h (h.nodeCount + 2) (h.rings.next (.sentinel liveList)) ⟨0, 0, 0⟩ = .ok seen)
    (hqueue : walkMoribund h [] h.moribund.reverse = .ok ()) :
    check h =
      if seen.flagged ≠ h.moribund.length then
        .error (.moribundCountMismatch seen.flagged h.moribund.length)
      else if seen.live ≠ h.nodeCount then .error (.nodeCountMismatch h.nodeCount seen.live)
      else .ok { live := seen.live, moribund := h.moribund.length, virgins := seen.virgins } := by
  unfold check
  simp only [hidle, hsettled, hlive, hqueue, bind, Except.bind]
  rfl

/-- A check that succeeds has found nothing wrong on either walk. -/
theorem walks_of_check {report : CheckReport} (hidle : h.phase = .idle)
    (hok : check h = .ok report) :
    h.rings.isEmpty reachableList = true ∧
      (∃ seen, walkLive h (h.nodeCount + 2) (h.rings.next (.sentinel liveList)) ⟨0, 0, 0⟩ =
        .ok seen) ∧
      walkMoribund h [] h.moribund.reverse = .ok () := by
  unfold check at hok
  rw [hidle] at hok
  cases hsettled : h.rings.isEmpty reachableList with
  | false => simp [hsettled, bind, Except.bind] at hok
  | true =>
    cases hlive : walkLive h (h.nodeCount + 2) (h.rings.next (.sentinel liveList)) ⟨0, 0, 0⟩ with
    | error v => simp [hsettled, hlive, bind, Except.bind] at hok
    | ok seen =>
      cases hqueue : walkMoribund h [] h.moribund.reverse with
      | error v => simp [hsettled, hlive, hqueue, bind, Except.bind] at hok
      | ok => exact ⟨rfl, ⟨seen, rfl⟩, rfl⟩

/-- A check of an idle collector succeeds if and only if it verifies all this of the nodes that it
meets. -/
theorem check_eq_ok_iff {report : CheckReport} (hidle : h.phase = .idle) :
    check h = .ok report ↔ ∃ ns, h.Checked ns ∧ report = h.checkReport ns := by
  have hlive_iff : ∀ {seen},
      walkLive h (h.nodeCount + 2) (h.rings.next (.sentinel liveList)) ⟨0, 0, 0⟩ = .ok seen ↔ _ :=
    walkLive_eq_ok_iff (Nat.zero_le _) (by dsimp only; omega)
  have hqueue_iff : walkMoribund h [] h.moribund.reverse = .ok () ↔ _ := walkMoribund_eq_ok_iff
  constructor
  · intro hok
    obtain ⟨hsettled, ⟨seen, hlive⟩, hqueue⟩ := walks_of_check hidle hok
    rw [check_of_walks hidle hsettled hlive hqueue] at hok
    obtain ⟨ns, hpath, hconsistent, -, rfl⟩ := hlive_iff.1 hlive
    obtain ⟨honce, hflagged, -⟩ := hqueue_iff.1 hqueue
    -- Only if both numbers agree is there a report.
    split_ifs at hok with hcount hlength
    cases hok
    have hcount' : 0 + ns.countP (fun n => (h.status n).contains .moribund) = h.moribund.length :=
      not_not.1 hcount
    have hlength' : 0 + ns.length = h.nodeCount := not_not.1 hlength
    rw [Nat.zero_add] at hcount' hlength'
    refine ⟨ns, ⟨hsettled, hpath, hconsistent, hlength', List.nodup_reverse.1 honce,
      fun n hn => hflagged n (List.mem_reverse.2 hn), hcount'⟩, ?_⟩
    simp [Walked.after, Heap.checkReport]
  · rintro ⟨ns, hc, rfl⟩
    have hroom : 0 + ns.length ≤ h.nodeCount := by
      rw [Nat.zero_add]
      exact Nat.le_of_eq hc.length
    have hlive := hlive_iff.2 ⟨ns, hc.path, hc.consistent, hroom, rfl⟩
    have hqueue := hqueue_iff.2 ⟨List.nodup_reverse.2 hc.queued_once,
      fun n hn => hc.flagged n (List.mem_reverse.1 hn), fun _ _ => List.not_mem_nil⟩
    rw [check_of_walks hidle hc.settled hlive hqueue]
    simp [Walked.after, hc.count, hc.length, Heap.checkReport]

end Collector

namespace Heap.Checked

/-- The way back from the sentinel leads past the same nodes. -/
theorem backwards (hc : h.Checked ns) (hne : ns ≠ []) :
    ∃ y, Rings.Path h.rings.prev (.sentinel liveList) ns.reverse y ∧
      h.rings.next y = h.rings.next (.sentinel liveList) := by
  cases ns with
  | nil => exact absurd rfl hne
  | cons n ns =>
    obtain ⟨hfirst, hrest⟩ := hc.path
    have hconsistent : ∀ m ∈ n :: ns, h.rings.prev (h.rings.next (.node m)) = .node m ∧
        h.rings.next (h.rings.prev (.node m)) = .node m := fun m hm =>
      Rings.isConsistent_iff.1 (hc.consistent m hm)
    -- The way back to the first node is sure. The sentinel was not asked for its neighbours, so the
    -- last step is to whatever the first node takes for the link before it.
    refine ⟨h.rings.prev (.node n), ?_, ?_⟩
    · have hback : Rings.Path h.rings.prev (.sentinel liveList) ns.reverse (.node n) := by
        refine hrest.reverse fun z hz => ?_
        obtain rfl | ⟨m, hm, rfl⟩ := hz
        · exact (hconsistent n List.mem_cons_self).1
        · exact (hconsistent m (List.mem_cons_of_mem n hm)).1
      rw [List.reverse_cons]
      exact hback.append (show Rings.Path h.rings.prev (.node n) [] _ from rfl)
    · rw [hfirst, (hconsistent n List.mem_cons_self).2]

/-- If every queued node is on the list, those queued are those whose flag is set. -/
theorem mem_moribund_iff (hc : h.Checked ns) (hlisted : ∀ n ∈ h.moribund, n ∈ ns) :
    n ∈ h.moribund ↔ n ∈ ns ∧ (h.status n).contains .moribund = true := by
  -- The queued nodes are as many as the flagged ones on the list, among which they are.
  let flagged := ns.filter fun n => (h.status n).contains .moribund
  have hsub : h.moribund ⊆ flagged := fun n hn =>
    List.mem_filter.2 ⟨hlisted n hn, hc.flagged n hn⟩
  have hlen : flagged.length ≤ h.moribund.length :=
    Nat.le_of_eq (List.countP_eq_length_filter.symm.trans hc.count)
  have hperm := (List.subperm_of_subset hc.queued_once hsub).perm_of_length_le hlen
  rw [hperm.mem_iff, List.mem_filter]

end Heap.Checked

namespace Collector

/-- A node that is queued, as far as its flag says. -/
def queuedNode : Node where
  kind := .node
  status := (Status.fresh false).insert .moribund
  payload := none
  block := 0
  stage := .allocated

/-- A heap in which only node 0 is on the live list and only node 1 is queued, though both have
their flag set. -/
def misqueued : Heap :=
  { Heap.new .standard (Memory.Allocator.new none none) with
    nodes := #[queuedNode, queuedNode]
    rings := ((Rings.empty.newList.2).newList.2.newNode.newNode).pushBack liveList 0
    nodeCount := 1
    moribund := [1] }

/-- The same as `misqueued`, but node 0 takes node 1 for the link before it, which leads to it. -/
def misled : Heap :=
  misqueued.modifyRings fun r => (r.setPrev (.node 0) (.node 1)).setNext (.node 1) (.node 0)

end Collector

end HybridHeap
