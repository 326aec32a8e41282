import HybridHeap.Proofs.Safety

/-!
# Nothing is lost in the accounts

Every node that has got storage has it still or has been reclaimed by some lite sweep, and the
running totals are the sums of what lite sweeps and full collections have returned. A collection
that is asked for during another returns at once and adds nothing, so each total grows by just what
is returned, whatever destructors do meanwhile.
-/

namespace HybridHeap

open Collector Act

variable {law : Law} {w : Juncture} {h h' k : Heap}

namespace Heap

/-- The number of nodes that have got storage so far, each by an allocation that succeeded. -/
def bornCount (h : Heap) : Nat :=
  (h.nodes.toList.map fun node => if node.stage = .unborn then 0 else 1).sum

/-- A node that has got storage has it or has given it back. -/
theorem bornCount_eq (h : Heap) : h.bornCount = h.allocatedCount + h.freedCount := by
  unfold bornCount allocatedCount freedCount
  rw [← List.sum_map_add]
  refine congrArg List.sum (List.map_congr_left fun node _ => ?_)
  cases node.stage <;> rfl

/-- The accounts of a heap between the steps of the mutator. -/
structure Balanced (h : Heap) : Prop where
  /-- The nodes that have got storage are counted, or have been reclaimed. -/
  born : h.bornCount = h.nodeCount + h.stats.totalReclaimed
  nodeCount : h.nodeCount = h.allocatedCount
  bytes : h.bytes = h.storageBytes
  reclaimed : h.stats.totalReclaimed = h.chronicle.sweeps.sum
  marked : h.stats.totalMarked = (h.chronicle.collections.map CollectionResult.marked).sum
  detached : h.stats.totalDetached = (h.chronicle.collections.map CollectionResult.detached).sum

/-- The running totals grow by the result of a full collection. -/
structure Gains (h : Heap) (r : CollectionResult) (h' : Heap) : Prop where
  reclaimed : h'.stats.totalReclaimed = h.stats.totalReclaimed + r.reclaimed
  marked : h'.stats.totalMarked = h.stats.totalMarked + r.marked
  detached : h'.stats.totalDetached = h.stats.totalDetached + r.detached

end Heap

/-- Where no lite sweep is under way the accounts are balanced. -/
theorem Invariant.balanced (inv : Invariant law w h) (hw : w.Intact)
    (hreclaimed : w.reclaimed = 0) : h.Balanced := by
  have hacc := inv.accounts hw
  rw [hreclaimed] at hacc
  refine ⟨?_, inv.nodeCount, inv.bytes.eq hw.1, hacc.reclaimed, hacc.marked, hacc.detached⟩
  rw [h.bornCount_eq, inv.nodeCount, hacc.freed, Nat.add_zero]

/-- The totals of a heap grow as what has been returned does. -/
theorem Invariant.gains {r : CollectionResult} (inv : Invariant law w h) (inv' : Invariant law w h')
    (hw : w.Intact) (hr : h.chronicle.Gains r h'.chronicle) : h.Gains r h' := by
  have hacc := inv.accounts hw
  have hacc' := inv'.accounts hw
  have hreclaimed := hr.reclaimed
  have hmarked := hr.marked
  have hdetached := hr.detached
  rw [← hacc.reclaimed, ← hacc'.reclaimed] at hreclaimed
  rw [← hacc.marked, ← hacc'.marked] at hmarked
  rw [← hacc.detached, ← hacc'.detached] at hdetached
  exact ⟨by omega, by omega, by omega⟩

namespace Mutator

/-- Where no destructor is running the accounts are balanced. Wherever the mutator asks for a lite
sweep or a full collection, the totals grow by what the request returns. -/
theorem accounts_balance (hv : Visited .honest k) :
    (k.dying = [] → k.Balanced) ∧
    (∀ fuel depth r k', liteSweep (runNested (.under .honest) fuel depth) fuel k = .ok r k' →
      k'.stats.totalReclaimed = k.stats.totalReclaimed + r) ∧
    ∀ fuel depth r k', collect (runNested (.under .honest) fuel depth) fuel k = .ok r k' →
      k.Gains r k' := by
  obtain ⟨w, hwhole, inv⟩ := hv.invariant
  have hkeeps := runNested_keeps (Terms.keep_of_whole hwhole .honest)
  refine ⟨fun hdying => ?_, fun fuel depth r k' hrun => ?_, fun fuel depth r k' hrun => ?_⟩
  · have hidle := hwhole.toReady.idle_of_dying (inv.dying.symm.trans hdying)
    exact inv.balanced hwhole.intact hidle.reclaimed
  · have hsweep := liteSweep_spec (hkeeps fuel depth) fuel hwhole.idle hwhole.swept inv
    obtain ⟨inv', hsum⟩ := hsweep.of_ok hrun
    have hreclaimed := (inv.accounts hwhole.intact).reclaimed
    have hreclaimed' := (inv'.accounts hwhole.intact).reclaimed
    omega
  · have hcollect := collect_spec (hkeeps fuel depth) fuel hwhole.toOpen inv
    obtain ⟨inv', hgains⟩ := hcollect.of_ok hrun
    exact inv.gains inv' hwhole.intact hgains

/-- Of four nodes a lite sweep reclaims two, and a full collection one more, whose destructor
allocates a fifth and asks for both kinds of collections. -/
theorem accounts_balance_nested :
    ∃ h r h', Visited .honest h ∧ h.bornCount = 4 ∧ h.nodeCount = 2 ∧
      h.stats.totalReclaimed = 2 ∧ h.Balanced ∧
      collect (runNested (.under .honest) 15 15) 15 h = .ok r h' ∧ h'.bornCount = 5 ∧
      h'.nodeCount = 2 ∧ r.reclaimed = 1 ∧ h.Gains r h' := by
  have hplay : ((play .honest [.allocate .bare .link [] none,
      .allocate (.root "a") .link [0] none, .allocate (.root "b") .node [] none,
      .drop "a", .lite, .allocate .bare .node []
        (some [.allocate (.root "c") .link [] none, .lite, .full])]).any
        fun h => h.bornCount = 4 ∧ h.nodeCount = 2 ∧ h.stats.totalReclaimed = 2 ∧
          Returns (collect (runNested (.under .honest) 15 15) 15) h fun r h' =>
            h'.bornCount = 5 ∧ h'.nodeCount = 2 ∧ r.reclaimed = 1) = true := by
    decide +kernel
  obtain ⟨h, hh, hfacts⟩ := (Option.any_eq_true _ _).1 hplay
  obtain ⟨hborn, hcount, htotal, hcollect⟩ := of_decide_eq_true hfacts
  obtain ⟨r, h', hrun, hborn', hcount', hr⟩ := returns_iff.1 hcollect
  have hv : Visited .honest h := ⟨h, reached_of_play hh, .inl rfl⟩
  obtain ⟨hbalanced, -, hgains⟩ := accounts_balance hv
  exact ⟨h, r, h', hv, hborn, hcount, htotal, hbalanced (reached_of_play hh).dying, hrun, hborn',
    hcount', hr, hgains 15 15 r h' hrun⟩

end Mutator

end HybridHeap
