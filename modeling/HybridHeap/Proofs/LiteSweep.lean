import HybridHeap.Proofs.Quiet

/-!
# What a lite sweep reclaims

A lite sweep of a quiet heap reclaims the garbage, whatever the order of its queue. While it drains
the queue every queued node was queued at the start or has a holder among the reclaimed nodes, and
every such node whose count is zero is queued; so what is reclaimed is garbage, and when the queue
is empty all the garbage has been. Each node is queued once more at most after the start, when its
count reaches zero, which bounds the number of turns.
-/

namespace HybridHeap

open Collector Act

variable {law : Law} {w : Juncture} {h h' k : Heap} {n m : NodeId} {run : Runner}
variable {rest : List NodeId} {D : Finset NodeId}

/-! ## The number of turns -/

/-- The nodes with a count. -/
def Heap.counted (h : Heap) : Finset NodeId :=
  (Finset.range h.nodes.size).filter fun n => (h.status n).count ≠ 0

theorem Heap.mem_counted : n ∈ h.counted ↔ n < h.nodes.size ∧ (h.status n).count ≠ 0 := by
  unfold counted
  rw [Finset.mem_filter, Finset.mem_range]

/-- How often a sweep can pop a node: once for each that is queued, and once for each whose count
may still reach zero. -/
def Heap.pressure (h : Heap) : Nat := h.moribund.length + h.counted.card

/-- The pressure is bounded by the number of nodes. -/
theorem Invariant.pressure_le (inv : Invariant law w h) : h.pressure ≤ 2 * h.nodes.size := by
  have hqueue : h.moribund.length ≤ h.nodes.size := by
    rw [← List.toFinset_card_of_nodup inv.nodup_moribund]
    refine (Finset.card_le_card fun n hn => ?_).trans_eq (Finset.card_range h.nodes.size)
    have hn := ((inv.mem_moribund n).1 (List.mem_toFinset.1 hn)).1
    exact Finset.mem_range.2 (Heap.lt_size_of_isAllocated hn)
  have hcounted : h.counted.card ≤ h.nodes.size :=
    (Finset.card_filter_le _ _).trans_eq (Finset.card_range h.nodes.size)
  unfold Heap.pressure
  omega

/-- Counts that go down do not raise the pressure. -/
theorem Eased.pressure_le (he : Eased h h') (hsize : h'.nodes.size = h.nodes.size)
    (inv : Invariant law w h') : h'.pressure ≤ h.pressure := by
  have hcounted : h'.counted ⊆ h.counted := by
    intro n hn
    rw [Heap.mem_counted, hsize] at hn
    have hle := he.le n
    exact Heap.mem_counted.2 ⟨hn.1, by omega⟩
  -- What is newly queued is no longer counted.
  have hqueue : h'.moribund.toFinset ⊆ h.moribund.toFinset ∪ (h.counted \ h'.counted) := by
    intro n hn
    rw [List.mem_toFinset] at hn
    have hlt : n < h.nodes.size := by
      rw [← hsize]
      exact Heap.lt_size_of_isAllocated ((inv.mem_moribund n).1 hn).1
    rw [Finset.mem_union, List.mem_toFinset, Finset.mem_sdiff, Heap.mem_counted, Heap.mem_counted]
    exact (he.fresh n hn).imp_right fun hlow =>
      ⟨⟨hlt, by omega⟩, fun hcount => hcount.2 hlow.2⟩
  have hcard := (Finset.card_le_card hqueue).trans (Finset.card_union_le _ _)
  have hlength := List.toFinset_card_le h.moribund
  have hsub := Finset.card_le_card hcounted
  rw [List.toFinset_card_of_nodup inv.nodup_moribund, Finset.card_sdiff_of_subset hcounted] at hcard
  unfold Heap.pressure
  omega

/-- Popping a node lowers the pressure. -/
theorem Heap.pressure_popped (hn : n < h.nodes.size) (hq : h.moribund = n :: rest) :
    (h.popped n).pressure + 1 = h.pressure := by
  have hcounted : (h.popped n).counted = h.counted := by
    ext m
    rw [mem_counted, mem_counted, count_popped hn, popped, size_nodes_setStatus]
  have hqueue : (h.popped n).moribund = rest := by
    show h.moribund.tail = rest
    rw [hq, List.tail_cons]
  unfold pressure
  rw [hcounted, hqueue, hq, List.length_cons]
  omega

/-! ## Draining the queue -/

/-- What holds while the queue of a heap is drained and some nodes have been reclaimed. -/
structure Swept (law : Law) (w : Juncture) (h : Heap) (D : Finset NodeId) (k : Heap) : Prop
    extends Remains ↑D ↑D h k, Lasting h k where
  inv : Invariant law { w with reclaimed := w.reclaimed + D.card } k
  torn : w.torn = false
  garbage : ↑D ⊆ h.garbage
  freed : ∀ n ∈ D, k.stage n = .freed
  stage : ∀ n ∉ D, k.stage n = h.stage n
  detached : ∀ n ∉ D, k.isDetached n = h.isDetached n
  lists : ∀ l, k.rings.toList l = (h.rings.toList l).filter fun n => n ∉ D
  le : ∀ n, (k.status n).count ≤ (h.status n).count
  stuck : ∀ n, (h.status n).isSaturated = true → (k.status n).isSaturated = true
  /-- What is queued was queued before or has a holder that went. -/
  sound : ∀ n ∈ k.moribund, n ∈ h.moribund ∨ 0 < h.holdersIn D n
  /-- What was queued before or has a holder that went is queued if nothing counts it. -/
  complete : ∀ n ∉ D, (k.status n).count = 0 → n ∈ h.moribund ∨ 0 < h.holdersIn D n →
    n ∈ k.moribund

namespace Swept

/-- Nothing has been reclaimed at the start. -/
theorem start (inv : Invariant law w h) (hw : w.torn = false) : Swept law w h ∅ h := by
  have hremains : Remains ↑(∅ : Finset NodeId) ↑(∅ : Finset NodeId) h h := by
    rw [Finset.coe_empty]
    exact .refl h
  have hzero : ∀ n, h.holdersIn ↑(∅ : Finset NodeId) n = 0 := fun n => by
    have hholders := hremains.holders n
    omega
  exact
    { hremains, Lasting.refl h with
      inv
      torn := hw
      garbage := by simp
      freed := fun n hn => by simp at hn
      stage := fun _ _ => rfl
      detached := fun _ _ => rfl
      lists := fun l => by simp
      le := fun _ => Nat.le_refl _
      stuck := fun _ hn => hn
      sound := fun _ hn => .inl hn
      complete := fun n _ _ hn => hn.resolve_right (Nat.not_lt.2 (hzero n).le) }

/-- The references to a node are those that are left and those that went. -/
theorem debts (hs : Swept law w h D k) (n : NodeId) :
    k.debts w n + h.holdersIn D n = h.debts w n := by
  have hholders := hs.holders n
  unfold Heap.debts
  omega

/-- A count that does not stick is the number of references that are left. -/
theorem count (hs : Swept law w h D k) (n : NodeId) :
    (k.status n).isSaturated = true ∨ (k.status n).count = k.debts w n := hs.inv.count n hs.torn

/-- Nothing refers to a node whose count has come down to zero. -/
theorem debts_eq_zero (hs : Swept law w h D k) (h0 : (k.status n).count = 0) :
    k.debts w n = 0 := by
  have hcount := (hs.count n).resolve_left
    (by simp [Status.not_isSaturated_of_count_eq_zero h0])
  exact hcount.symm.trans h0

/-- A node that is still queued has not been reclaimed. -/
theorem not_mem_of_queued (hs : Swept law w h D k) (hn : n ∈ k.moribund) : n ∉ D := fun hD => by
  have hallocated := ((hs.inv.mem_moribund n).1 hn).1
  rw [Heap.isAllocated_iff, hs.freed n hD] at hallocated
  cases hallocated

/-- A queued node whose count is zero is garbage, if what is pinned is counted. -/
theorem mem_garbage (hs : Swept law w h D k) (inv : Invariant law w h)
    (hpins : ∀ n ∈ h.pinned, 0 < w.pins.count n) (hn : n ∈ k.moribund)
    (h0 : (k.status n).count = 0) : n ∈ h.garbage := by
  have hzero := hs.debts_eq_zero h0
  have hdebts := hs.debts n
  have hunsaturated : (h.status n).isSaturated = false := by
    rw [Bool.eq_false_iff]
    intro hsat
    have hstuck := hs.stuck n hsat
    rw [Status.not_isSaturated_of_count_eq_zero h0] at hstuck
    cases hstuck
  have hcount := (inv.count n hs.torn).resolve_left (by simp [hunsaturated])
  refine Heap.mem_garbage inv hs.garbage ⟨fun hpinned => ?_, hunsaturated, by omega, hs.sound n hn⟩
  have hpos := hpins n hpinned
  unfold Heap.debts at hzero
  omega

/-- Popping a node that is still counted changes nothing that matters. -/
theorem skip (hs : Swept law w h D k) (hq : k.moribund = n :: rest) (h0 : (k.status n).count ≠ 0) :
    Swept law w h D (k.popped n) := by
  have hlt := Heap.lt_size_of_isAllocated (popped_spec hs.inv hq).1
  have hcount := Heap.count_popped hlt
  have hrecounted := Heap.recounted_popped hlt
  have hremains := hs.trans (.of_restamped hrecounted.toRestamped)
  rw [Set.union_empty] at hremains
  have hqueue : (k.popped n).moribund = rest := by
    show k.moribund.tail = rest
    rw [hq, List.tail_cons]
  exact
    { hremains, hs.toLasting.trans (.of_restamped hrecounted.toRestamped) with
      inv := hs.inv.pop hq
      torn := hs.torn
      garbage := hs.garbage
      freed := by
        rw [hrecounted.stage]
        exact hs.freed
      stage := by
        rw [hrecounted.stage]
        exact hs.stage
      detached := by
        rw [hrecounted.isDetached]
        exact hs.detached
      lists := hs.lists
      le := fun m => (hcount m).trans_le (hs.le m)
      stuck := fun m hm => by
        rw [Status.isSaturated_iff, hcount, ← Status.isSaturated_iff]
        exact hs.stuck m hm
      sound := fun m hm => hs.sound m (by rw [hq]; exact List.mem_cons_of_mem n (hqueue ▸ hm))
      complete := fun m hm hzero hqueued => by
        rw [hcount] at hzero
        have hmem := hs.complete m hm hzero hqueued
        rw [hq, List.mem_cons] at hmem
        rw [hqueue]
        exact hmem.resolve_left fun hmn => h0 (hmn ▸ hzero) }

/-- Reclaiming a popped node that nothing counts adds it to what has been reclaimed. -/
theorem reclaim (hs : Swept law w h D k) (inv : Invariant law w h)
    (hpins : ∀ n ∈ h.pinned, 0 < w.pins.count n) (hq : k.moribund = n :: rest)
    (h0 : (k.status n).count = 0) {k' : Heap}
    (inv' : Invariant law { w with reclaimed := w.reclaimed + D.card + 1 } k')
    (hr : Reclaims n (k.popped n) k') : Swept law w h (insert n D) k' := by
  have hlt := Heap.lt_size_of_isAllocated (popped_spec hs.inv hq).1
  have hcount := Heap.count_popped hlt
  have hrecounted := Heap.recounted_popped hlt
  have hmem : n ∈ k.moribund := hq ▸ List.mem_cons_self
  have hqueue : (k.popped n).moribund = rest := by
    show k.moribund.tail = rest
    rw [hq, List.tail_cons]
  have hremains := (hs.trans (.of_restamped hrecounted.toRestamped)).trans hr.toRemains
  have hinsert : (↑D ∪ ∅ ∪ {n} : Set NodeId) = ↑(insert n D) := by
    rw [Set.union_empty, Finset.coe_insert, Set.union_singleton]
  rw [hinsert] at hremains
  have hdebts := hs.debts
  have hdebts' : ∀ m, k'.debts w m + h.holdersIn ↑(insert n D) m = h.debts w m := fun m => by
    have hholders := hremains.holders m
    unfold Heap.debts
    omega
  have hzero' : ∀ m, (k'.status m).count = 0 → k'.debts w m = 0 := fun m hm => by
    have hcovered := (inv'.covered m).resolve_left
      (by simp [Status.not_isSaturated_of_count_eq_zero hm])
    exact Nat.le_zero.1 (hm ▸ hcovered.le)
  have hcard : (insert n D).card = D.card + 1 :=
    Finset.card_insert_of_notMem (hs.not_mem_of_queued hmem)
  have hlasting := hs.toLasting.trans (.of_restamped hrecounted.toRestamped)
  exact
    { hremains, hlasting.trans hr.toLasting with
      inv := by
        rw [hcard]
        exact inv'
      torn := hs.torn
      garbage := by
        rw [Finset.coe_insert, Set.insert_subset_iff]
        exact ⟨hs.mem_garbage inv hpins hmem h0, hs.garbage⟩
      freed := fun m hm => by
        by_cases hmn : m = n
        · rw [hmn]
          exact hr.freed
        · rw [hr.stage m hmn, hrecounted.stage]
          exact hs.freed m ((Finset.mem_insert.1 hm).resolve_left hmn)
      stage := fun m hm => by
        obtain ⟨hmn, hm⟩ := not_or.1 (mt Finset.mem_insert.2 hm)
        rw [hr.stage m hmn, hrecounted.stage]
        exact hs.stage m hm
      detached := fun m hm => by
        obtain ⟨hmn, hm⟩ := not_or.1 (mt Finset.mem_insert.2 hm)
        rw [hr.detached m hmn, hrecounted.isDetached]
        exact hs.detached m hm
      lists := fun l => by
        have hnodup := hs.inv.rings.nodup l
        calc k'.rings.toList l
          _ = (k.rings.unlink (.node n)).toList l := by rw [hr.rings]; rfl
          _ = (k.rings.toList l).filter (· != n) := by
              rw [hs.inv.rings.toList_unlink, hnodup.erase_eq_filter]
          _ = (h.rings.toList l).filter fun m => m ∉ insert n D := by
              rw [hs.lists, List.filter_filter]
              refine List.filter_congr fun m _ => ?_
              by_cases hm : m = n <;> simp [hm]
      le := fun m => ((hr.le m).trans_eq (hcount m)).trans (hs.le m)
      stuck := fun m hm => hr.stuck m (by
        rw [Status.isSaturated_iff, hcount, ← Status.isSaturated_iff]
        exact hs.stuck m hm)
      sound := fun m hm => by
        have hmono := h.holdersIn_mono (S := ↑D) (T := ↑(insert n D)) (by simp) m
        obtain hold | ⟨hlow, hm0⟩ := hr.fresh m hm
        · rw [hqueue] at hold
          have hsound := hs.sound m (hq ▸ List.mem_cons_of_mem n hold)
          exact hsound.imp_right fun hpos => by omega
        · -- The count came down, so a holder of the node went with the node just reclaimed.
          rw [hcount] at hlow
          have hunsaturated : (k.status m).isSaturated ≠ true := fun hsat => by
            have hstuck := hr.stuck m (by
              rw [Status.isSaturated_iff, hcount, ← Status.isSaturated_iff]
              exact hsat)
            rw [Status.not_isSaturated_of_count_eq_zero hm0] at hstuck
            cases hstuck
          have hold := (hs.count m).resolve_left hunsaturated
          have hnew := hzero' m hm0
          have h1 := hdebts m
          have h2 := hdebts' m
          right
          omega
      complete := fun m hm hm0 hqueued => by
        obtain ⟨hmn, hm⟩ := not_or.1 (mt Finset.mem_insert.2 hm)
        by_cases hold0 : (k.status m).count = 0
        · -- The node was queued already, for the same reason.
          have hold := hs.debts_eq_zero hold0
          have hnew := hzero' m hm0
          have h1 := hdebts m
          have h2 := hdebts' m
          have hmem := hs.complete m hm hold0 (hqueued.imp_right fun hpos => by omega)
          rw [hq, List.mem_cons] at hmem
          exact hr.queued m (hqueue ▸ hmem.resolve_left hmn)
        · exact hr.orphaned m (by rw [hcount]; omega) hm0 }

/-- When the queue is empty the garbage has been reclaimed. -/
theorem eq_garbage (hs : Swept law w h D k) (inv : Invariant law w h) (hq : k.moribund = []) :
    (D : Set NodeId) = h.garbage := by
  refine Set.Subset.antisymm hs.garbage (Heap.garbage_subset fun m hm => ?_)
  by_contra hD
  have hle := hs.le m
  have hcount := (inv.count m hs.torn).resolve_left (by simp [hm.unsaturated])
  have hheld := hm.count
  have hdebts := hs.debts m
  have hzero : (k.status m).count = 0 := by
    obtain hsat | hleft := hs.count m
    · have hmax := (Status.isSaturated_iff _).1 hsat
      have hbound := Status.count_le_max (h.status m)
      have hunsaturated := hm.unsaturated
      rw [Status.isSaturated_eq_false_iff] at hunsaturated
      omega
    · omega
  have hmem := hs.complete m (by simpa using hD) hzero hm.queued
  rw [hq] at hmem
  cases hmem

end Swept

namespace Collector

variable {pins : List NodeId}

/-- Draining the queue of a quiet heap reclaims the garbage. -/
theorem drain_quiet (hidle : run.Idle) (hquiet : h.Quiet) (htidy : law.tidy = true)
    (inv : Invariant law { w with guard := some (.lite pins none) } h)
    (hpins : ∀ n ∈ h.pinned, n ∈ pins) (hcalm : w.Idle) (fuel reclaimed : Nat)
    (hs : Swept law { w with guard := some (.lite pins none) } h D k) (hfuel : k.pressure < fuel) :
    Returns (drain run fuel reclaimed) k fun total k' =>
      ∃ D', Swept law { w with guard := some (.lite pins none) } h D' k' ∧
        k'.moribund = [] ∧ total + D.card = reclaimed + D'.card := by
  -- What has been reclaimed so far is in `D`. The pressure falls with every node popped and bounds
  -- the fuel from below.
  induction fuel generalizing k D reclaimed with
  | zero => exact absurd hfuel (Nat.not_lt_zero _)
  | succ fuel ih =>
    cases hq : k.moribund with
    | nil =>
      unfold drain
      simp only [Returns, leads_bind, leads_view, hq]
      exact ⟨D, hs, hq, rfl⟩
    | cons n rest =>
      obtain ⟨hn, hn', hout⟩ := popped_spec hs.inv hq
      have hlt := Heap.lt_size_of_isAllocated hn
      have hpressure := Heap.pressure_popped hlt hq
      rw [Returns, leads_congr (drain_cons fuel reclaimed hlt hq)]
      split
      case isTrue h0 =>
        have hzero : ((k.popped n).status n).count = 0 := (Heap.count_popped hlt n).trans h0
        have hquiet' : (k.popped n).Quiet :=
          (Remains.of_restamped (Heap.recounted_popped hlt).toRestamped).quiet (hs.quiet hquiet)
        simp only [leads_bind]
        refine (destroy_quiet (w := w) hidle hquiet' htidy (hs.inv.pop hq) hcalm hn' hzero
          hout).leads ?_
        rintro _ k' ⟨inv', hr⟩
        have hswept := hs.reclaim inv (fun m hm => List.count_pos_iff.2 (hpins m hm)) hq h0 inv' hr
        have hle := hr.pressure_le hr.size inv'
        refine (ih (reclaimed + 1) hswept (by omega)).mono ?_
        rintro total k'' ⟨D', hs', hq', htotal⟩
        have hcard := Finset.card_insert_of_notMem
          (hs.not_mem_of_queued (hq ▸ List.mem_cons_self))
        exact ⟨D', hs', hq', by omega⟩
      case isFalse h0 => exact ih reclaimed (hs.skip hq h0) (by omega)

end Collector

/-! ## The whole sweep -/

/-- The heap after a lite sweep that reclaimed so many nodes, when they are gone and nothing is
pinned any more. -/
def Heap.endSweep (h : Heap) (reclaimed : Nat) : Heap :=
  { h with
    liteThreshold := Word.addSaturating h.bytes h.config.margin
    stats := { h.stats with
      liteSweeps := h.stats.liteSweeps + 1, totalReclaimed := h.stats.totalReclaimed + reclaimed }
    chronicle := h.chronicle.sweep reclaimed
    inhibitors := h.inhibitors - 1 }

/-- What a lite sweep leaves of a heap: the garbage has been reclaimed with the weak entries keyed
by it, every other node is as it was, and counts are lower by what went. Pins make a count stick
that they take to its greatest value. -/
structure Cleared (h h' : Heap) : Prop extends Remains h.garbage h.garbage h h' where
  freed : ∀ n ∈ h.garbage, h'.stage n = .freed
  stage : ∀ n ∉ h.garbage, h'.stage n = h.stage n
  detached : ∀ n ∉ h.garbage, h'.isDetached n = h.isDetached n
  count : ∀ n, (h.status n).count + h.pinned.count n < Status.countMax →
    (h'.status n).count + h.holdersIn h.garbage n = (h.status n).count
  stuck : ∀ n, Status.countMax ≤ (h.status n).count + h.pinned.count n →
    (h'.status n).count = Status.countMax

/-- Counting references up makes those counts stick that they take to the greatest value. -/
theorem Raised.isSaturated_iff {ns ms : List NodeId} (hr : Raised ns h k) (inv : Invariant law w h)
    (inv' : Invariant law (w.holding ms) k) (hw : w.torn = false)
    (hcount : ms.count n = ns.count n) :
    (k.status n).isSaturated = true ↔ Status.countMax ≤ (h.status n).count + ns.count n := by
  constructor
  · intro hsat
    rw [← (Status.isSaturated_iff _).1 hsat]
    exact hr.bounded n
  · intro hmax
    cases hsat : (h.status n).isSaturated with
    | true => rw [hr.stuck n hsat, hsat]
    | false =>
      have hold := (inv.count n hw).resolve_left (by simp [hsat])
      refine (inv'.count n hw).elim (fun hsat' => hsat') fun hnew => ?_
      rw [Heap.debts_holding_append, hr.debts] at hnew
      have hbound := Status.count_le_max (k.status n)
      exact (Status.isSaturated_iff _).2 (by omega)

namespace Collector

/-- A lite sweep that is not held off is its three stages one after the other. -/
theorem liteSweep_eq_of_stages {h₁ h₂ h₃ : Heap} {fuel total : Nat} (hi : h.isInhibited = false)
    (hpin : h.pinned.forM increment { h with inhibitors := h.inhibitors + 1 } = .ok () h₁)
    (hdrain : drain run fuel 0 h₁ = .ok total h₂)
    (hunpin : h.pinned.reverse.forM decrement h₂ = .ok () h₃) :
    liteSweep run fuel h = .ok total (h₃.endSweep total) := by
  unfold liteSweep inhibiting
  refine bind_eq_ok.2 ⟨false, h, congrArg (EStateM.Result.ok · h) hi, ?_⟩
  -- The sweep ends with collection still held off, and holds it off no longer after that.
  refine bind_eq_ok.2 ⟨(), _, rfl,
    ensuring_of_ok { h₃.endSweep total with inhibitors := h₃.inhibitors } ?_ rfl⟩
  exact bind_eq_ok.2 ⟨h.pinned, _, rfl, bind_eq_ok.2 ⟨(), h₁, hpin,
    bind_eq_ok.2 ⟨total, h₂, hdrain, bind_eq_ok.2 ⟨(), h₃, hunpin, rfl⟩⟩⟩⟩

/-- The stages of a lite sweep of a quiet heap: what uncounted roots designate is pinned, the
garbage reclaimed until the queue is empty, and the pins are undone. -/
structure Stages (law : Law) (w : Juncture) (run : Runner) (fuel : Nat) (h h₁ h₂ h₃ : Heap) :
    Prop where
  pin : h.pinned.forM increment { h with inhibitors := h.inhibitors + 1 } = .ok () h₁
  pinned : Invariant law (Juncture.holding { w with guard := some .plain } h.pinned.reverse) h₁
  raised : Raised h.pinned { h with inhibitors := h.inhibitors + 1 } h₁
  drain : drain run fuel 0 h₁ = .ok h.garbage.ncard h₂
  swept : ∃ D : Finset NodeId, ↑D = h.garbage ∧
    Swept law { w with guard := some (.lite h.pinned.reverse none) } h₁ D h₂
  empty : h₂.moribund = []
  drained : Invariant law (Juncture.holding
    { w with guard := some .plain, reclaimed := h.garbage.ncard } h.pinned.reverse) h₂
  unpin : h.pinned.reverse.forM decrement h₂ = .ok () h₃
  lowered : Lowered h₂ h₃
  unpinned : Invariant law { w with guard := some .plain, reclaimed := h.garbage.ncard } h₃

/-- A lite sweep of a quiet heap that no one writes around goes through its stages. -/
theorem exists_stages (hidle : run.Idle) (hquiet : h.Quiet) (htidy : law.tidy = true)
    (hready : w.guard = none → w.Idle) (htorn : w.torn = false) (inv : Invariant law w h)
    (hi : h.isInhibited = false) {fuel : Nat} (hfuel : 2 * h.nodes.size < fuel) :
    ∃ h₁ h₂ h₃, Stages law w run fuel h h₁ h₂ h₃ := by
  have hguard := guard_eq_none inv hi
  have hcalm := hready hguard
  have hw := Juncture.eq_unguarded hguard
  rw [hw] at inv
  have halloc : ∀ n ∈ h.pinned, h.isAllocated n = true := fun n => inv.isAllocated_of_mem_pinned
  obtain ⟨_, h₁, hpin, inv₁, hr₁⟩ := returns_iff.1
    (forM_increment_spec inv.inhibit halloc fun _ _ hd => by cases hd)
  have hpinned : h₁.pinned = h.pinned := hr₁.pinned
  have hpins : ∀ n ∈ h₁.pinned, n ∈ h.pinned.reverse := fun n hn => by
    rw [List.mem_reverse, ← hpinned]
    exact hn
  have hlite := inv₁.pin fun n hn => by
    rw [hr₁.uncounted] at hn
    exact List.mem_reverse.2 (inv.uncounted_subset_pinned n hn)
  have hremains₁ : Remains ∅ ∅ h h₁ := { Remains.of_restamped hr₁.toRestamped with }
  -- Pins hold counts up but do not add to the nodes, so the fuel that suffices is as before.
  have hpressure := hlite.pressure_le
  rw [hremains₁.size] at hpressure
  obtain ⟨total, h₂, hdrain, D, hs, hq, htotal⟩ := returns_iff.1
    (drain_quiet (w := { w with guard := none }) hidle (hremains₁.quiet hquiet) htidy hlite
      hpins (hcalm.guarded none) fuel 0 (.start hlite htorn) (by omega))
  have hgarbage : (D : Set NodeId) = h.garbage := by
    rw [hs.eq_garbage hlite hq]
    exact Heap.garbage_congr hpinned hr₁.others hr₁.queue hremains₁.holdersIn_eq
  have hcard : h.garbage.ncard = D.card := by
    rw [← hgarbage, Set.ncard_coe_finset]
  obtain rfl : total = h.garbage.ncard := by
    rw [hcard]
    simpa using htotal
  have hdrained : Invariant law
      { w with guard := some (.lite h.pinned.reverse none), reclaimed := h.garbage.ncard } h₂ := by
    have hreclaimed : w.reclaimed + D.card = h.garbage.ncard := by
      rw [hcalm.reclaimed, hcard, Nat.zero_add]
    rw [← hreclaimed]
    exact hs.inv
  have hunpin := Invariant.unpin (w := { w with reclaimed := h.garbage.ncard }) hcalm.loose hdrained
  obtain ⟨_, h₃, hdecrement, inv₃, hl₃⟩ := returns_iff.1 (forM_decrement_spec hunpin)
  exact ⟨h₁, h₂, h₃, hpin, inv₁, hr₁, hdrain, ⟨D, hgarbage, hs⟩, hq, hunpin, hdecrement,
    hl₃, inv₃⟩

/-- A lite sweep of a quiet heap that no one writes around reclaims the garbage, also where the
mutator may not run. -/
theorem liteSweep_quiet_of_idle (hidle : run.Idle) (hquiet : h.Quiet) (htidy : law.tidy = true)
    (hready : w.guard = none → w.Idle) (hswept : w.guard = none → w.swept = none)
    (htorn : w.torn = false) (inv : Invariant law w h) (hi : h.isInhibited = false) {fuel : Nat}
    (hfuel : 2 * h.nodes.size < fuel) :
    Returns (liteSweep run fuel) h fun reclaimed h' =>
      reclaimed = h.garbage.ncard ∧ Invariant law w h' ∧ Cleared h h' ∧ Lasting h h' := by
  have hguard := guard_eq_none inv hi
  have hcalm := hready hguard
  obtain ⟨h₁, h₂, h₃, hs⟩ := exists_stages hidle hquiet htidy hready htorn inv hi hfuel
  obtain ⟨D, hgarbage, hswept'⟩ := hs.swept
  have hw := Juncture.eq_unguarded hguard
  rw [Returns, Leads, liteSweep_eq_of_stages hi hs.pin hs.drain hs.unpin]
  rw [hw] at inv ⊢
  have hr₁ := hs.raised
  have hl₃ := hs.lowered
  have htally := Invariant.tally (w := { w with guard := some .plain }) hcalm.reclaimed
    (hswept hguard) { hs.unpinned with }
  have hremains₁ : Remains ∅ ∅ h h₁ := { Remains.of_restamped hr₁.toRestamped with }
  have hremains : Remains h.garbage h.garbage h h₃ := by
    have hall := (hremains₁.trans hswept'.toRemains).trans (.of_restamped hl₃.toRestamped)
    rw [Set.empty_union, Set.union_empty, hgarbage] at hall
    exact hall
  have hmem : ∀ n, n ∈ h.garbage ↔ n ∈ D := fun n => by rw [← hgarbage, Finset.mem_coe]
  have hsat₁ : ∀ n, (h₁.status n).isSaturated = true ↔
      Status.countMax ≤ (h.status n).count + h.pinned.count n := fun n =>
    hr₁.isSaturated_iff inv.inhibit hs.pinned htorn List.count_reverse
  have hlasting₁ : Lasting h h₁ := { Lasting.of_restamped hr₁.toRestamped with }
  have hlasting : Lasting h h₃ :=
    (hlasting₁.trans hswept'.toLasting).trans (.of_restamped hl₃.toRestamped)
  refine ⟨rfl, { htally.permit with }, { hremains with
    freed := fun n hn => ?_, stage := fun n hn => ?_, detached := fun n hn => ?_
    count := fun n hn => ?_, stuck := fun n hn => ?_ }, { hlasting with }⟩
  · exact (congrFun hl₃.stage n).trans (hswept'.freed n ((hmem n).1 hn))
  · rw [hmem] at hn
    exact (congrFun hl₃.stage n).trans ((hswept'.stage n hn).trans (congrFun hr₁.stage n))
  · rw [hmem] at hn
    exact (congrFun hl₃.isDetached n).trans
      ((hswept'.detached n hn).trans (congrFun hr₁.isDetached n))
  · -- Neither with the pins nor after them does the count stick.
    have hle : (h₃.status n).count ≤ (h₁.status n).count := (hl₃.le n).trans (hswept'.le n)
    have hbound := hr₁.bounded n
    have hold := (inv.count n htorn).resolve_left fun hsat => by
      rw [Status.isSaturated_iff] at hsat
      omega
    have hnew := (hs.unpinned.count n htorn).resolve_left fun hsat => by
      rw [Status.isSaturated_iff] at hsat
      have hlow : (h₁.status n).count ≤ (h.status n).count + h.pinned.count n := hbound
      omega
    have hholders := hremains.holders n
    show (h₃.status n).count + _ = _
    rw [hold, hnew]
    show h₃.holders n + 0 + w.flight.count n + _ = h.holders n + 0 + w.flight.count n
    omega
  · exact (Status.isSaturated_iff _).1 (hl₃.stuck n (hswept'.stuck n ((hsat₁ n).2 hn)))

/-- A lite sweep of a quiet heap that no one writes around reclaims the garbage. -/
theorem liteSweep_quiet (hidle : run.Idle) (hquiet : h.Quiet) (htidy : law.tidy = true)
    (hwhole : w.Whole) (inv : Invariant law w h) (hi : h.isInhibited = false) {fuel : Nat}
    (hfuel : 2 * h.nodes.size < fuel) :
    Returns (liteSweep run fuel) h fun reclaimed h' =>
      reclaimed = h.garbage.ncard ∧ Invariant law w h' ∧ Cleared h h' :=
  (liteSweep_quiet_of_idle hidle hquiet htidy hwhole.idle hwhole.swept hwhole.torn inv hi
    hfuel).mono fun _ _ hpost => ⟨hpost.1, hpost.2.1, hpost.2.2.1⟩

end Collector

end HybridHeap
