import HybridHeap.Proofs.Frames
import HybridHeap.Proofs.LiteSweep
import HybridHeap.Proofs.Safety

/-!
# What a lite sweep leaves queued

A lite sweep pins what uncounted roots designate and undoes the pins in reverse order when the queue
is empty. What it leaves queued is settled by that alone: the pinned nodes that nothing counts, each
queued when its last pin goes, which is the first place at which it is designated. The next sweep
takes these nodes off the queue one by one as it pins them, finds the queue empty, and puts each of
them back to where it was. Pins and their undoing are nested like brackets, and counting a reference
up and down again restores the status word, so in the end that sweep has changed nothing.

The nodes that a lite sweep reclaims are off their lists then, and the others are where they were,
in the same order. It neither marks nor unmarks anything.
-/

namespace HybridHeap

open Collector Act

variable {law : Law} {w : Juncture} {h h' k : Heap} {n : NodeId} {run : Runner}
  {ns pins : List NodeId}

/-! ## First occurrences -/

/-- Among the given nodes those that nothing counts, each once, by first occurrence. -/
def Heap.uncountedAmong (h : Heap) (ns : List NodeId) : List NodeId :=
  (ns.filter fun n => (h.status n).count = 0).eraseDups

theorem Heap.mem_uncountedAmong : n ∈ h.uncountedAmong ns ↔ n ∈ ns ∧ (h.status n).count = 0 := by
  unfold uncountedAmong
  rw [List.mem_eraseDups, List.mem_filter, decide_eq_true_iff]

/-- Elements without their repetitions are in the order of their first occurrences. -/
theorem pairwise_idxOf_eraseDups (p : NodeId → Bool) (ns : List NodeId) :
    (ns.filter p).eraseDups.Pairwise fun m n => ns.idxOf m < ns.idxOf n := by
  induction ns generalizing p with
  | nil => simp
  | cons n ns ih =>
    have hrest : ∀ q : NodeId → Bool, (∀ m, q m = true → m ≠ n) →
        (ns.filter q).eraseDups.Pairwise fun l m => (n :: ns).idxOf l < (n :: ns).idxOf m := by
      intro q hq
      refine (ih q).imp_of_mem fun {l m} hl hm hlt => ?_
      rw [List.mem_eraseDups, List.mem_filter] at hl hm
      rw [List.idxOf_cons_ne _ (hq l hl.2).symm, List.idxOf_cons_ne _ (hq m hm.2).symm]
      exact Nat.succ_lt_succ hlt
    by_cases hn : p n = true
    · rw [List.filter_cons_of_pos hn, List.eraseDups_cons, List.filter_filter, List.pairwise_cons]
      refine ⟨fun m hm => ?_, hrest _ fun m hm => ?_⟩
      · rw [List.mem_eraseDups, List.mem_filter] at hm
        have hne : m ≠ n := by
          rintro rfl
          simp at hm
        rw [List.idxOf_cons_self, List.idxOf_cons_ne _ hne.symm]
        exact Nat.succ_pos _
      · rintro rfl
        simp at hm
    · rw [List.filter_cons_of_neg hn]
      refine hrest p fun m hm => ?_
      rintro rfl
      exact hn hm

/-- A node that comes last is among them in the end if it was not before. -/
theorem Heap.uncountedAmong_concat (h : Heap) (ns : List NodeId) (n : NodeId) :
    h.uncountedAmong (ns ++ [n]) =
      h.uncountedAmong ns ++ if (h.status n).count = 0 ∧ n ∉ ns then [n] else [] := by
  unfold uncountedAmong
  rw [List.filter_append, List.eraseDups_append]
  congr 1
  by_cases h0 : (h.status n).count = 0
  · by_cases hn : n ∈ ns
    · simp [List.removeAll, h0, hn]
    · simp [List.removeAll, h0, hn, List.eraseDups_cons]
  · simp [h0, List.removeAll]

/-! ## What undoing the pins queues -/

namespace Collector

/-- Counting down a reference in flight queues its target if that leaves a count of zero. -/
theorem decrement_queues (inv : Invariant law (w.holding [n]) h) (hn : n ∉ h.moribund) :
    Returns (decrement n) h fun _ h' => h'.moribund =
      if (h'.status n).count = 0 then n :: h.moribund else h.moribund := by
  have hpos : 0 < h.debts (w.holding [n]) n := by
    rw [h.debts_holding, if_pos rfl]
    omega
  have hallocated := inv.grounded n hpos
  have hlt := Heap.lt_size_of_isAllocated hallocated
  have hclear : (h.status n).contains .moribund = false := by
    by_contra hset
    exact hn ((inv.mem_moribund n).2 ⟨hallocated, by simpa using hset⟩)
  cases hsat : (h.status n).isSaturated with
  | true =>
    refine (decrement_leads (Status.decrement?_of_isSaturated hsat)).mono ?_
    rintro _ _ rfl
    rw [Heap.status_setStatus_with hlt, if_pos rfl, (Status.isSaturated_iff _).1 hsat]
    rfl
  | false =>
    have hle := ((inv.covered n).resolve_left (by simp [hsat])).le
    obtain ⟨t, outcome, heq, -, -, -, houtcome⟩ := Status.decrement?_eq hsat (by omega)
    refine (decrement_leads heq).mono ?_
    rintro _ _ rfl
    rw [Heap.status_setStatus_with hlt, if_pos rfl]
    simp only [houtcome, hclear, and_true]

/-- When references in flight have been counted down, the count of any other node is as before. -/
theorem count_eq_of_lowered (hw : w.torn = false) (inv : Invariant law (w.holding ns) h)
    (inv' : Invariant law w h') (hl : Lowered h h') (hn : n ∉ ns) :
    (h'.status n).count = (h.status n).count := by
  obtain hsat | hold := inv.count n hw
  · rw [(Status.isSaturated_iff _).1 hsat, (Status.isSaturated_iff _).1 (hl.stuck n hsat)]
  · have hle := hl.le n
    rw [Heap.debts_holding_append, List.count_eq_zero_of_not_mem hn, Nat.add_zero] at hold
    obtain hsat' | hnew := inv'.count n hw
    · have hbound := Status.count_le_max (h.status n)
      have hmax := (Status.isSaturated_iff _).1 hsat'
      omega
    · rw [hnew, hold, hl.debts]

/-- Counting down references in flight to nodes that are not queued queues those of them that
nothing counts any more, each at its last turn. -/
theorem forM_decrement_queues (hw : w.torn = false) (inv : Invariant law (w.holding ns) h)
    (hns : ∀ n ∈ ns, n ∉ h.moribund) :
    Returns (ns.forM decrement) h fun _ h' =>
      h'.moribund = h'.uncountedAmong ns.reverse ++ h.moribund := by
  induction ns generalizing h with
  | nil => exact rfl
  | cons n ns ih =>
    rw [Returns, leads_forM_cons]
    refine ((decrement_spec (w := w.holding ns) inv).and
      (decrement_queues (w := w.holding ns) inv (hns n List.mem_cons_self))).mono ?_
      fun _ _ hfalse => hfalse.1
    rintro _ h₁ ⟨⟨inv₁, -⟩, hqueue⟩
    -- A node whose turn comes again is still held by the reference to be counted down then.
    have hpos : n ∈ ns → (h₁.status n).count ≠ 0 := fun hmem h0 => by
      have hcount := List.count_pos_iff.2 hmem
      have hcovered := (inv₁.covered n).resolve_left
        (by simp [Status.not_isSaturated_of_count_eq_zero h0])
      have hle := hcovered.le
      rw [Heap.debts_holding_append] at hle
      omega
    have hrest : ∀ m ∈ ns, m ∉ h₁.moribund := by
      intro m hm
      rw [hqueue]
      split
      · rename_i h0
        rintro (_ | ⟨_, hq⟩)
        · exact hpos hm h0
        · exact hns m (List.mem_cons_of_mem n hm) hq
      · exact hns m (List.mem_cons_of_mem n hm)
    refine ((forM_decrement_spec inv₁).and (ih inv₁ hrest)).mono ?_ fun _ _ hfalse => hfalse.1
    rintro _ h₂ ⟨⟨inv₂, hl₂⟩, hqueue₂⟩
    rw [hqueue₂, hqueue, List.reverse_cons, Heap.uncountedAmong_concat, List.append_assoc]
    simp only [List.mem_reverse, List.append_cancel_left_eq]
    by_cases hn : n ∈ ns
    · simp [hn, hpos hn]
    · simp only [count_eq_of_lowered hw inv₁ inv₂ hl₂ hn, hn, not_false_eq_true, and_true]
      split <;> rfl

end Collector

/-! ## Pinning and unpinning -/

namespace Heap

/-- Setting a status to what it is changes nothing. -/
theorem setStatus_self (h : Heap) (n : NodeId) : h.setStatus n (h.status n) = h := by
  show { h with nodes := _ } = h
  congr 1
  refine Array.ext_getElem? fun m => ?_
  unfold status
  rw [Array.getElem?_modify]
  split_ifs with hnm
  · rw [hnm]
    cases h.nodes[m]? <;> rfl
  · rfl

/-- Of two statuses set the second stays. -/
theorem setStatus_setStatus (h : Heap) (n : NodeId) (s t : Status) :
    (h.setStatus n s).setStatus n t = h.setStatus n t := by
  unfold setStatus modifyNode
  congr 1
  refine Array.ext_getElem? fun m => ?_
  simp only [Array.getElem?_modify]
  split_ifs
  · cases h.nodes[m]? <;> rfl
  · rfl

/-- A node that can be pinned as often as it is designated and have its status restored: either its
count sticks, or it comes nowhere near and the node has been referenced before and is flagged as
moribund exactly if nothing counts it. -/
def Poised (h : Heap) (pins : List NodeId) (n : NodeId) : Prop :=
  n < h.nodes.size ∧ ((h.status n).isSaturated = true ∨
    (h.status n).count + pins.count n < Status.countMax ∧
    (h.status n).contains .referenced = true ∧
    (h.status n).contains .moribund = decide ((h.status n).count = 0))

/-- A node that is counted is not among those that nothing counts. -/
theorem uncountedAmong_cons_of_ne_zero (hn : (h.status n).count ≠ 0) :
    h.uncountedAmong (n :: ns) = h.uncountedAmong ns := by
  unfold uncountedAmong
  rw [List.filter_cons_of_neg (by simpa using hn)]

/-- A node that nothing counts comes first, and once. -/
theorem uncountedAmong_cons_of_eq_zero (hn : (h.status n).count = 0) :
    h.uncountedAmong (n :: ns) =
      n :: (ns.filter fun m => m ≠ n ∧ (h.status m).count = 0).eraseDups := by
  unfold uncountedAmong
  rw [List.filter_cons_of_pos (by simpa using hn), List.eraseDups_cons, List.filter_filter]
  congr 3
  funext m
  rw [Bool.decide_and, beq_eq_decide, decide_not]

end Heap

namespace Collector

/-- Counting a pin up and down again changes nothing where the count sticks. -/
theorem pin_step_of_isSaturated (hsat : (h.status n).isSaturated = true) :
    increment n h = .ok () h ∧ decrement n h = .ok () h := by
  have hup := Status.increment_of_isSaturated hsat
  have hself : ({ h.setStatus n (h.status n) with moribund := h.moribund } : Heap) = h :=
    h.setStatus_self n
  constructor
  · have hleads := increment_leads (h := h) n
    rw [hup] at hleads
    obtain ⟨_, h₁, heq, hh₁⟩ := returns_iff.1 (hleads.returns_of_not fun _ _ hE => by cases hE.1)
    rw [heq, hh₁]
    exact congrArg (EStateM.Result.ok ()) hself
  · obtain ⟨_, h₁, heq, hh₁⟩ := returns_iff.1
      (decrement_leads (Status.decrement?_of_isSaturated hsat))
    rw [heq, hh₁]
    exact congrArg (EStateM.Result.ok ()) hself

/-- Counting a pin up takes a node that nothing counts from the head of the queue, and counting it
down puts it back there. -/
theorem pin_step_of_low {p : NodeId} {ps : List NodeId} (hlt : p < h.nodes.size)
    (hlow : (h.status p).count + 1 < Status.countMax)
    (hreferenced : (h.status p).contains .referenced = true)
    (hmoribund : (h.status p).contains .moribund = decide ((h.status p).count = 0))
    (hq : h.moribund = h.uncountedAmong (p :: ps)) :
    ∃ h₁, increment p h = .ok () h₁ ∧ decrement p h₁ = .ok () h ∧
      h₁.nodes.size = h.nodes.size ∧ h₁.moribund = h₁.uncountedAmong ps ∧
      ∀ n, h₁.status n = if n = p then (h.status p).increment.1 else h.status n := by
  have hsat : (h.status p).isSaturated = false := by
    rw [Status.isSaturated_eq_false_iff]
    omega
  have hrevived : (h.status p).increment.2 = .revived ↔ (h.status p).count = 0 := by
    rw [Status.increment_snd, hsat, hmoribund]
    by_cases h0 : (h.status p).count = 0 <;> simp [h0]
  obtain ⟨_, h₁, hup, hh₁⟩ := returns_iff.1 <| (increment_leads (h := h) p).returns_of_not <| by
    -- It fails only where it revives a node that is not queued, and `p` is.
    rintro _ _ ⟨hrevive, hnot⟩
    rw [hq, Heap.mem_uncountedAmong] at hnot
    exact hnot ⟨List.mem_cons_self, hrevived.1 hrevive⟩
  have hstatus : ∀ n, h₁.status n =
      if n = p then (h.status p).increment.1 else h.status n := fun n => by
    rw [hh₁, Heap.status_setStatus_with hlt]
  have hself : h₁.status p = (h.status p).increment.1 := (hstatus p).trans (if_pos rfl)
  have hdown := Status.decrement?_increment hlow hreferenced hmoribund
  rw [← hself] at hdown
  obtain ⟨_, h₂, hdecrement, hh₂⟩ := returns_iff.1 (decrement_leads hdown)
  have hzero : ∀ n, (h₁.status n).count = 0 ↔ n ≠ p ∧ (h.status n).count = 0 := fun n => by
    rw [hstatus]
    split_ifs with hn
    · simp [hn, Status.count_increment hsat]
    · simp [hn]
  refine ⟨h₁, hup, ?_, ?_, ?_, hstatus⟩
  · -- The status that was set is the one that was there, and the queue is what it was.
    have hnodes : (h₁.setStatus p (h.status p)).nodes = h.nodes := by
      rw [hh₁]
      show ((h.setStatus p (h.status p).increment.1).setStatus p (h.status p)).nodes = h.nodes
      rw [h.setStatus_setStatus, h.setStatus_self]
    have hqueue : h₂.moribund = h.moribund := by
      rw [hh₂, hh₁]
      simp only [hrevived]
      by_cases h0 : (h.status p).count = 0
      · simp [h0, hq, Heap.uncountedAmong_cons_of_eq_zero h0]
      · simp [h0]
    rw [hdecrement]
    congr 1
    calc h₂ = { h with nodes := (h₁.setStatus p (h.status p)).nodes, moribund := h₂.moribund } := by
          rw [hh₂, hh₁]
          rfl
      _ = h := by rw [hnodes, hqueue]
  · rw [hh₁]
    exact Heap.size_nodes_setStatus h p _
  · have hrest : h₁.uncountedAmong ps =
        (ps.filter fun n => n ≠ p ∧ (h.status n).count = 0).eraseDups := by
      unfold Heap.uncountedAmong
      simp only [hzero]
    rw [hrest, hh₁]
    simp only [hrevived]
    by_cases h0 : (h.status p).count = 0
    · rw [if_pos h0, hq, Heap.uncountedAmong_cons_of_eq_zero h0, List.erase_cons_head]
    · rw [if_neg h0, hq, Heap.uncountedAmong_cons_of_ne_zero h0]
      unfold Heap.uncountedAmong
      congr 2
      funext n
      refine decide_eq_decide.2 ⟨fun hn => ⟨?_, hn⟩, fun hn => hn.2⟩
      rintro rfl
      exact h0 hn

/-- Counting a pin up and down again restores the heap, and in between the node is off the queue. -/
theorem pin_step {p : NodeId} {ps : List NodeId} (hpins : ∀ n ∈ p :: ps, h.Poised (p :: ps) n)
    (hq : h.moribund = h.uncountedAmong (p :: ps)) :
    ∃ h₁, increment p h = .ok () h₁ ∧ decrement p h₁ = .ok () h ∧ (∀ n ∈ ps, h₁.Poised ps n) ∧
      h₁.moribund = h₁.uncountedAmong ps := by
  obtain ⟨hlt, hpoised⟩ := hpins p List.mem_cons_self
  have hrest : ∀ n ∈ ps, h.Poised ps n := fun n hn => by
    obtain ⟨hlt, hpoised⟩ := hpins n (List.mem_cons_of_mem p hn)
    have hle : ps.count n ≤ (p :: ps).count n := List.count_le_count_cons
    exact ⟨hlt, hpoised.imp_right fun hp => ⟨by omega, hp.2⟩⟩
  obtain hsat | ⟨hlow, hreferenced, hmoribund⟩ := hpoised
  · have hcount : (h.status p).count ≠ 0 := by
      rw [(Status.isSaturated_iff _).1 hsat]
      decide
    obtain ⟨hup, hdown⟩ := pin_step_of_isSaturated hsat
    exact ⟨h, hup, hdown, hrest, hq.trans (Heap.uncountedAmong_cons_of_ne_zero hcount)⟩
  · rw [List.count_cons_self] at hlow
    have hsat : (h.status p).isSaturated = false := by
      rw [Status.isSaturated_eq_false_iff]
      omega
    obtain ⟨h₁, hup, hdown, hsize, hqueue, hstatus⟩ :=
      pin_step_of_low hlt (by omega) hreferenced hmoribund hq
    refine ⟨h₁, hup, hdown, fun n hn => ?_, hqueue⟩
    by_cases hnp : n = p
    · subst hnp
      unfold Heap.Poised
      rw [hsize, hstatus, if_pos rfl, Status.contains_increment hsat,
        Status.contains_increment hsat, Status.count_increment hsat]
      exact ⟨hlt, .inr ⟨by omega, by simp, by simp⟩⟩
    · unfold Heap.Poised
      rw [hsize, hstatus, if_neg hnp]
      exact hrest n hn

/-- Pinning nodes and undoing the pins in reverse order restores the heap, and in between nothing is
queued, if what is queued are the pinned nodes that nothing counts. -/
theorem pin_unpin (hpins : ∀ n ∈ pins, h.Poised pins n) (hq : h.moribund = h.uncountedAmong pins) :
    ∃ k, pins.forM increment h = .ok () k ∧ k.moribund = [] ∧
      pins.reverse.forM decrement k = .ok () h := by
  induction pins generalizing h with
  | nil => exact ⟨h, rfl, hq, rfl⟩
  | cons p ps ih =>
    obtain ⟨h₁, hup, hdown, hpins₁, hq₁⟩ := pin_step hpins hq
    obtain ⟨k, hups, hempty, hdowns⟩ := ih hpins₁ hq₁
    refine ⟨k, bind_eq_ok.2 ⟨(), h₁, hup, hups⟩, hempty, ?_⟩
    have hsplit : (p :: ps).reverse.forM decrement =
        ps.reverse.forM decrement >>= fun _ => [p].forM decrement := by
      rw [List.reverse_cons]
      exact List.forM_append
    rw [hsplit]
    exact bind_eq_ok.2 ⟨(), h₁, hdowns, bind_eq_ok.2 ⟨(), h, hdown, rfl⟩⟩

end Collector

/-! ## Heaps at rest -/

/-- A heap in which a lite sweep finds nothing to do: what is queued are the pinned nodes that
nothing counts, in the order in which unpinning queues them, and the threshold is that of the bytes
there are. -/
structure Heap.Resting (h : Heap) : Prop where
  queue : h.moribund = h.uncountedAmong h.pinned
  poised : ∀ n ∈ h.pinned, h.Poised h.pinned n
  threshold : h.liteThreshold = Word.addSaturating h.bytes h.config.margin

/-- A lite sweep of a heap at rest reclaims nothing and changes nothing but the number of sweeps. -/
theorem Heap.Resting.liteSweep_eq (hr : h.Resting) (hi : h.isInhibited = false) (run : Runner)
    (turns : Nat) :
    liteSweep run (turns + 1) h = .ok 0 { h with
      stats := { h.stats with liteSweeps := h.stats.liteSweeps + 1 }
      chronicle := h.chronicle.sweep 0 } := by
  obtain ⟨k, hpin, hempty, hunpin⟩ :=
    pin_unpin (h := { h with inhibitors := h.inhibitors + 1 }) hr.poised hr.queue
  have hdrain : drain run (turns + 1) 0 k = .ok 0 k := by
    unfold drain
    refine bind_eq_ok.2 ⟨none, k, ?_, rfl⟩
    show EStateM.Result.ok k.moribund.head? k = _
    rw [hempty]
    rfl
  rw [liteSweep_eq_of_stages hi hpin hdrain hunpin]
  congr 1
  calc ({ h with inhibitors := h.inhibitors + 1 } : Heap).endSweep 0
    _ = { h with
          liteThreshold := Word.addSaturating h.bytes h.config.margin
          stats := { h.stats with liteSweeps := h.stats.liteSweeps + 1 }
          chronicle := h.chronicle.sweep 0 } := rfl
    _ = _ := by rw [← hr.threshold]

/-- Whether a node has been referenced, as its status tells, or its count sticks. -/
def Heap.HasBeenReferenced (h : Heap) (n : NodeId) : Prop :=
  (h.status n).isSaturated = true ∨ (h.status n).contains .referenced = true

/-- A lite sweep leaves uncounted roots where they are and reclaims nothing that they designate. -/
theorem Cleared.pinned (hc : Cleared h h') (inv : Invariant law w h) : h'.pinned = h.pinned := by
  have hstage : ∀ n, n ∉ h.garbage → h'.isAllocated n = h.isAllocated n := fun n hn => by
    rw [Bool.eq_iff_iff, Heap.isAllocated_iff, Heap.isAllocated_iff, hc.stage n hn]
  have hspared : ∀ n ∈ h.pinned, n ∉ h.garbage := fun n hn hgarbage =>
    Heap.garbage_subset (S := {m | m ∉ h.pinned}) (fun m hm => hm.unpinned) hgarbage hn
  unfold Heap.pinned Heap.stackedRoots Heap.externalRoots
  rw [hc.roots, hc.sources]
  congr 1
  refine List.flatMap_congr fun s hs => ?_
  split_ifs with hpins
  · unfold Heap.designated
    rw [hc.sources]
    refine List.filter_congr fun n hn => ?_
    by_cases hgarbage : n ∈ h.garbage
    · -- What is designated and has storage is pinned, and so no garbage.
      have halloc := Heap.isAllocated_of_mem_garbage inv hgarbage
      refine absurd hgarbage (hspared n (List.mem_append_right _ ?_))
      unfold Heap.externalRoots
      refine List.mem_flatMap.2 ⟨s, hs, ?_⟩
      rw [if_pos hpins]
      exact List.mem_filter.2 ⟨hn, halloc⟩
    · exact hstage n hgarbage
  · rfl

namespace Collector

/-- Counting references up leaves their targets flagged as referenced. -/
theorem forM_increment_references (hlt : ∀ n ∈ ns, n < h.nodes.size) :
    Leads (ns.forM increment) h
      (fun _ h' => ∀ n, h.HasBeenReferenced n ∨ n ∈ ns → h'.HasBeenReferenced n)
      fun _ _ => True := by
  induction ns generalizing h with
  | nil => exact fun n hn => hn.resolve_right List.not_mem_nil
  | cons n ns ih =>
    rw [leads_forM_cons]
    refine (increment_leads n).mono ?_ fun _ _ _ => trivial
    rintro _ h₁ hh₁
    have hsize : h₁.nodes.size = h.nodes.size := by
      rw [hh₁]
      exact Heap.size_nodes_setStatus h n _
    have hfirst : ∀ m, h.HasBeenReferenced m ∨ m = n → h₁.HasBeenReferenced m := by
      intro m hm
      unfold Heap.HasBeenReferenced
      rw [hh₁, Heap.status_setStatus_with (hlt n List.mem_cons_self)]
      split_ifs with hmn
      · exact (h.status n).referenced_increment
      · exact hm.resolve_right hmn
    refine (ih fun m hm => hsize ▸ hlt m (List.mem_cons_of_mem n hm)).imp fun _ h₂ hrest m hm => ?_
    rw [List.mem_cons, ← or_assoc] at hm
    exact hrest m (hm.imp_left (hfirst m))

namespace Stages

variable {h₁ h₂ h₃ : Heap} {fuel : Nat}

/-- Pinned nodes are flagged as referenced from then on, unless their counts stick. -/
theorem hasBeenReferenced (hs : Stages law w run fuel h h₁ h₂ h₃) (hidle : run.Idle)
    (hquiet : h.Quiet) (inv : Invariant law w h) (hn : n ∈ h.pinned) : h₃.HasBeenReferenced n := by
  obtain ⟨D, -, hsw⟩ := hs.swept
  have hremains : Remains ∅ ∅ h h₁ := { Remains.of_restamped hs.raised.toRestamped with }
  have hreferenced := (forM_increment_references (h := { h with inhibitors := h.inhibitors + 1 })
    fun m hm => Heap.lt_size_of_isAllocated (inv.isAllocated_of_mem_pinned hm)).of_ok hs.pin n
      (.inr hn)
  obtain ⟨hquiet₂, hflags, -⟩ :=
    (settles_drain hidle fuel 0).of_ok hs.drain (hremains.quiet hquiet)
  obtain ⟨-, hflags', -⟩ := (OnReturn.forM (fun _ _ => undisturbed_decrement _) _).of_ok hs.unpin
    hquiet₂
  refine hreferenced.imp (fun hsat => hs.lowered.stuck n (hsw.stuck n hsat)) fun href => ?_
  rw [hflags'.flags n _ (by decide) (by decide), hflags.flags n _ (by decide) (by decide)]
  exact href

/-- What is left queued are the pinned nodes that nothing counts. -/
theorem queue (hs : Stages law w run fuel h h₁ h₂ h₃) (htorn : w.torn = false) :
    h₃.moribund = h₃.uncountedAmong h.pinned := by
  have hqueue := (forM_decrement_queues
    (w := { w with guard := some .plain, reclaimed := h.garbage.ncard }) htorn hs.drained
    fun n _ => by simp [hs.empty]).of_ok hs.unpin
  rwa [hs.empty, List.append_nil, List.reverse_reverse] at hqueue

/-- A count that does not stick when the pins are undone did not stick with the pins either. -/
theorem count_lt (hs : Stages law w run fuel h h₁ h₂ h₃) (htorn : w.torn = false)
    (hn : (h₃.status n).isSaturated = false) :
    (h₃.status n).count + h.pinned.count n < Status.countMax := by
  have hunsaturated : (h₂.status n).isSaturated = false := by
    rw [Bool.eq_false_iff]
    intro hsat
    rw [hs.lowered.stuck n hsat] at hn
    cases hn
  have hcount₂ := (hs.drained.count n htorn).resolve_left (by simp [hunsaturated])
  have hcount₃ := (hs.unpinned.count n htorn).resolve_left (by simp [hn])
  rw [Heap.debts_holding_append, List.count_reverse] at hcount₂
  rw [hs.lowered.debts] at hcount₃
  have hbound := Status.count_le_max (h₂.status n)
  have hne : (h₂.status n).count ≠ Status.countMax := fun hmax => by
    rw [(Status.isSaturated_iff _).2 hmax] at hunsaturated
    cases hunsaturated
  omega

/-- What was pinned can be pinned again and have its status restored. -/
theorem poised (hs : Stages law w run fuel h h₁ h₂ h₃) (hidle : run.Idle) (hquiet : h.Quiet)
    (htorn : w.torn = false) (inv : Invariant law w h) (hpinned : h₃.pinned = h.pinned)
    (hn : n ∈ h.pinned) : h₃.Poised h.pinned n := by
  have halloc := hs.unpinned.isAllocated_of_mem_pinned (hpinned.symm ▸ hn)
  refine ⟨Heap.lt_size_of_isAllocated halloc, ?_⟩
  cases hsat : (h₃.status n).isSaturated with
  | true => exact .inl rfl
  | false =>
    refine .inr ⟨hs.count_lt htorn hsat,
      (hs.hasBeenReferenced hidle hquiet inv hn).resolve_left (by simp [hsat]), ?_⟩
    have hmem := hs.unpinned.mem_moribund n
    rw [halloc, hs.queue htorn, Heap.mem_uncountedAmong] at hmem
    rw [Bool.eq_iff_iff, decide_eq_true_iff]
    simpa [hn] using hmem.symm

end Stages

/-- A lite sweep of a quiet heap that no one writes around leaves it at rest. -/
theorem liteSweep_resting (hidle : run.Idle) (hquiet : h.Quiet) (htidy : law.tidy = true)
    (hready : w.guard = none → w.Idle) (hswept : w.guard = none → w.swept = none)
    (htorn : w.torn = false) (inv : Invariant law w h) (hi : h.isInhibited = false) {fuel : Nat}
    (hfuel : 2 * h.nodes.size < fuel) :
    Returns (liteSweep run fuel) h fun _ h' =>
      h'.pinned = h.pinned ∧ h'.isInhibited = false ∧ h'.Resting := by
  obtain ⟨h₁, h₂, h₃, hs⟩ := exists_stages hidle hquiet htidy hready htorn inv hi hfuel
  have hsweep := liteSweep_quiet_of_idle hidle hquiet htidy hready hswept htorn inv hi hfuel
  rw [Returns, Leads, liteSweep_eq_of_stages hi hs.pin hs.drain hs.unpin] at hsweep ⊢
  obtain ⟨-, inv', hcleared, -⟩ := hsweep
  have hpinned := hcleared.pinned inv
  refine ⟨hpinned, ?_, ?_, fun n hn => ?_, rfl⟩
  · have hguard := guard_eq_none inv hi
    exact (isInhibited_eq inv inv' hguard hguard hcleared.guards).trans hi
  · rw [hpinned]
    exact hs.queue htorn
  · rw [hpinned] at hn ⊢
    exact hs.poised hidle hquiet htorn inv hpinned hn

end Collector

/-! ## Lists and marks -/

open scoped Classical in
/-- A lite sweep has cleared the heap: the garbage is off the lists, what is marked is as it was,
and what is queued are the pinned nodes that nothing counts. -/
structure Pruned (h h' : Heap) : Prop extends Cleared h h', Lasting h h' where
  cycle : h'.cycle = h.cycle
  mark : ∀ n, (h'.status n).contains .mark = (h.status n).contains .mark
  lists : ∀ l, h'.rings.toList l = (h.rings.toList l).filter fun n => n ∉ h.garbage
  queue : h'.moribund = h'.uncountedAmong h.pinned

namespace Collector

namespace Stages

variable {h₁ h₂ h₃ : Heap} {fuel : Nat}

/-- Pins come and go without touching marks, and reclaiming nodes touches them neither. -/
theorem mark (hs : Stages law w run fuel h h₁ h₂ h₃) (hidle : run.Idle) (hquiet : h.Quiet) :
    h₃.cycle = h.cycle ∧ ∀ n, (h₃.status n).contains .mark = (h.status n).contains .mark := by
  have hremains : Remains ∅ ∅ h h₁ := { Remains.of_restamped hs.raised.toRestamped with }
  obtain ⟨-, hflags, -⟩ := (settles_drain hidle fuel 0).of_ok hs.drain (hremains.quiet hquiet)
  have hraised : h₁.cycle = h.cycle := hs.raised.cycle
  refine ⟨hs.lowered.cycle.trans (hflags.cycle.trans hraised), fun n => ?_⟩
  calc (h₃.status n).contains .mark
    _ = (h₂.status n).contains .mark := hs.lowered.flags n .mark (by decide) (by decide)
    _ = (h₁.status n).contains .mark := hflags.flags n .mark (by decide) (by decide)
    _ = (h.status n).contains .mark := hs.raised.flags n .mark (by decide) (by decide)

open scoped Classical in
/-- What is off the lists is the garbage. -/
theorem lists (hs : Stages law w run fuel h h₁ h₂ h₃) (l : ListId) :
    h₃.rings.toList l = (h.rings.toList l).filter fun n => n ∉ h.garbage := by
  obtain ⟨D, hgarbage, hswept⟩ := hs.swept
  have hraised : h₁.rings = h.rings := hs.raised.ringsEq
  rw [hs.lowered.ringsEq, hswept.lists, hraised, ← hgarbage]
  refine List.filter_congr fun n _ => ?_
  simp only [Finset.mem_coe]

end Stages

/-- A lite sweep of a quiet heap that no one writes around prunes it. -/
theorem liteSweep_prunes (hidle : run.Idle) (hquiet : h.Quiet) (htidy : law.tidy = true)
    (hready : w.guard = none → w.Idle) (hswept : w.guard = none → w.swept = none)
    (htorn : w.torn = false) (inv : Invariant law w h) (hi : h.isInhibited = false) {fuel : Nat}
    (hfuel : 2 * h.nodes.size < fuel) :
    Returns (liteSweep run fuel) h fun reclaimed h' =>
      reclaimed = h.garbage.ncard ∧ Invariant law w h' ∧ Pruned h h' := by
  obtain ⟨h₁, h₂, h₃, hs⟩ := exists_stages hidle hquiet htidy hready htorn inv hi hfuel
  have hsweep := liteSweep_quiet_of_idle hidle hquiet htidy hready hswept htorn inv hi hfuel
  rw [Returns, Leads, liteSweep_eq_of_stages hi hs.pin hs.drain hs.unpin] at hsweep ⊢
  obtain ⟨hreclaimed, inv', hcleared, hlasting⟩ := hsweep
  obtain ⟨hcycle, hmark⟩ := hs.mark hidle hquiet
  exact ⟨hreclaimed, inv', { hcleared, hlasting with
    cycle := hcycle
    mark := hmark
    lists := hs.lists
    queue := hs.queue htorn }⟩

end Collector

namespace Mutator

/-- A lite sweep that is not held off leaves queued exactly the pinned nodes that nothing counts,
each once, the one that is designated last having been queued first. A second lite sweep, whatever
it would run destructors with, reclaims nothing and changes nothing but the number of lite sweeps,
which the chronicle records too. -/
theorem liteSweep_canonical {terms : Terms} {bound depth fuel : Nat} (hv : Visited .tidying h)
    (hi : h.isInhibited = false) (hquiet : h.Quiet) (hfuel : 2 * h.nodes.size < fuel) :
    ∃ reclaimed h', liteSweep (runNested terms bound (depth + 1)) fuel h = .ok reclaimed h' ∧
      h'.pinned = h.pinned ∧
      (∀ n, n ∈ h'.moribund ↔ n ∈ h'.pinned ∧ (h'.status n).count = 0) ∧
      h'.moribund.Nodup ∧
      h'.moribund.reverse.Pairwise (fun m n => h'.pinned.idxOf n < h'.pinned.idxOf m) ∧
      ∀ (run : Runner) (turns : Nat), liteSweep run (turns + 1) h' = .ok 0 { h' with
        stats := { h'.stats with liteSweeps := h'.stats.liteSweeps + 1 }
        chronicle := h'.chronicle.sweep 0 } := by
  obtain ⟨w, hw, inv⟩ := hv.invariant
  obtain ⟨reclaimed, h', hsweep, hpinned, hi', hresting⟩ := returns_iff.1
    (liteSweep_resting (runNested_idle terms bound depth) hquiet rfl hw.idle hw.swept hw.torn inv
      hi hfuel)
  have hordered : h'.moribund.Pairwise fun m n => h'.pinned.idxOf m < h'.pinned.idxOf n := by
    rw [hresting.queue]
    exact pairwise_idxOf_eraseDups _ _
  refine ⟨reclaimed, h', hsweep, hpinned, fun n => ?_, ?_, List.pairwise_reverse.2 hordered,
    hresting.liteSweep_eq hi'⟩
  · rw [hresting.queue]
    exact Heap.mem_uncountedAmong
  · refine hordered.imp fun {m n} hlt => ?_
    rintro rfl
    exact Nat.lt_irrefl _ hlt

/-- Of two nodes that nothing counts, the one that two stack roots designate is queued last. -/
theorem liteSweep_canonical_stacked :
    ∃ h reclaimed h', Visited .tidying h ∧ h.pinned = [1, 0, 1] ∧
      liteSweep (runNested .free 0 1) 8 h = .ok reclaimed h' ∧ h'.moribund = [1, 0] ∧
      liteSweep (runNested .free 0 1) 1 h' = .ok 0 { h' with
        stats := { h'.stats with liteSweeps := h'.stats.liteSweeps + 1 }
        chronicle := h'.chronicle.sweep 0 } := by
  have hplay : ((play .tidying [.allocate .bare .link [] none, .allocate .bare .link [] none,
      .stackRoot "a" 1, .stackRoot "b" 0, .stackRoot "c" 1]).any fun h =>
        h.isInhibited = false ∧ h.Quiet ∧ 2 * h.nodes.size < 8 ∧ h.pinned = [1, 0, 1] ∧
        Returns (liteSweep (runNested .free 0 1) 8) h fun _ h' => h'.moribund = [1, 0]) = true := by
    decide +kernel
  obtain ⟨h, hh, hfacts⟩ := (Option.any_eq_true _ _).1 hplay
  obtain ⟨hi, hquiet, hfuel, hpinned, hqueue⟩ := of_decide_eq_true hfacts
  have hv : Visited .tidying h := ⟨h, reached_of_play hh, .inl rfl⟩
  obtain ⟨reclaimed, h', hsweep, -, -, -, -, hagain⟩ := liteSweep_canonical hv hi hquiet hfuel
  exact ⟨h, reclaimed, h', hv, hpinned, hsweep, Leads.of_ok hqueue hsweep, hagain _ 0⟩

end Mutator

end HybridHeap
