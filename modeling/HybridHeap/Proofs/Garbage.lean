import HybridHeap.Proofs.Reclaiming
import Mathlib.Algebra.BigOperators.Group.Finset.Basic
import Mathlib.Algebra.Order.BigOperators.Group.Finset
import Mathlib.Data.Set.Card

/-!
# Garbage

What a lite sweep has to reclaim, said without the order of the queue: the least set with every node
that is not pinned, that only nodes of the set hold, and that is queued or held by one of them. The
holders that count are the payloads of nodes of the set and the weak entries keyed by them, for
these go with the set, and what is left of the heap then is described by `Remains`.
-/

namespace HybridHeap

variable {law : Law} {w : Juncture} {h k l : Heap} {n m : NodeId} {S T : Set NodeId}

/-- The key of a weak entry is in the set. -/
def WeakEntry.KeyedIn (S : Set NodeId) (e : WeakEntry) : Prop := ∃ key ∈ S, e.key = some key

namespace Heap

open scoped Classical in
/-- The edges to a node in payloads of the set and in weak entries keyed by it. -/
noncomputable def holdersIn (h : Heap) (S : Set NodeId) (n : NodeId) : Nat :=
  (∑ m ∈ Finset.range h.nodes.size, if m ∈ S then (h.edges m).count n else 0) +
    (h.roots.weak.toList.map fun e => if e.KeyedIn S then e.edges.count n else 0).sum

/-- A node that goes when the set goes: it is not pinned, its count does not stick and is that of
its holders in the set, and it is queued or has such a holder. -/
structure Reclaimable (h : Heap) (S : Set NodeId) (n : NodeId) : Prop where
  unpinned : n ∉ h.pinned
  unsaturated : (h.status n).isSaturated = false
  count : (h.status n).count = h.holdersIn S n
  queued : n ∈ h.moribund ∨ 0 < h.holdersIn S n

/-- The least set that has every node that goes with it. -/
def garbage (h : Heap) : Set NodeId := {n | ∀ S, (∀ m, h.Reclaimable S m → m ∈ S) → n ∈ S}

/-! ## Holders in a set -/

/-- A larger set holds more. -/
theorem holdersIn_mono (h : Heap) (hST : S ⊆ T) (n : NodeId) :
    h.holdersIn S n ≤ h.holdersIn T n := by
  unfold holdersIn
  refine Nat.add_le_add (Finset.sum_le_sum fun m _ => ?_) (List.sum_le_sum fun e _ => ?_)
  · by_cases hm : m ∈ S
    · rw [if_pos hm, if_pos (hST hm)]
    · rw [if_neg hm]
      exact Nat.zero_le _
  · by_cases he : e.KeyedIn S
    · obtain ⟨key, hkey, heq⟩ := id he
      rw [if_pos he, if_pos ⟨key, hST hkey, heq⟩]
    · rw [if_neg he]
      exact Nat.zero_le _

/-- What counts on one of two conditions at most is no more than what counts on each. -/
theorem ite_le_add {p q r : Prop} {_ : Decidable p} {_ : Decidable q} {_ : Decidable r}
    (a : Nat) (hp : p → q ∨ r) :
    (if p then a else 0) ≤ (if q then a else 0) + if r then a else 0 := by
  split_ifs <;> simp_all

/-- What the union of two sets holds is held by one of them. -/
theorem holdersIn_union_le (h : Heap) (S T : Set NodeId) (n : NodeId) :
    h.holdersIn (S ∪ T) n ≤ h.holdersIn S n + h.holdersIn T n := by
  unfold holdersIn
  rw [add_add_add_comm, ← Finset.sum_add_distrib, ← List.sum_map_add]
  refine Nat.add_le_add (Finset.sum_le_sum fun m _ => ?_) (List.sum_le_sum fun e _ => ?_)
  · exact ite_le_add _ id
  · refine ite_le_add _ ?_
    rintro ⟨key, hkey, heq⟩
    exact hkey.imp (fun hmem => ⟨key, hmem, heq⟩) fun hmem => ⟨key, hmem, heq⟩

/-- The holders in payloads, node by node. -/
theorem payloadHolders_eq_sum (h : Heap) (n : NodeId) :
    h.payloadHolders n = ∑ m ∈ Finset.range h.nodes.size, (h.edges m).count n := by
  refine (sum_eq_sum_range h.nodes _).trans (Finset.sum_congr rfl fun m _ => ?_)
  unfold edges
  cases h.nodes[m]? <;> rfl

/-- What counts only on a condition is at most the whole. -/
theorem ite_le_self {p : Prop} [Decidable p] (a : Nat) : (if p then a else 0) ≤ a := by
  split_ifs
  · exact Nat.le_refl a
  · exact Nat.zero_le a

/-- Holders in a set are holders in payloads and weak entries. -/
theorem holdersIn_le_kept (h : Heap) (S : Set NodeId) (n : NodeId) :
    h.holdersIn S n ≤ h.payloadHolders n + h.weakHolders n := by
  classical
  unfold holdersIn
  rw [payloadHolders_eq_sum]
  refine Nat.add_le_add (Finset.sum_le_sum fun m _ => ite_le_self _)
    (List.sum_le_sum fun e _ => ite_le_self _)

/-- Holders in a set are holders. -/
theorem holdersIn_le (h : Heap) (S : Set NodeId) (n : NodeId) : h.holdersIn S n ≤ h.holders n := by
  have hle := h.holdersIn_le_kept S n
  unfold holders
  omega

/-- An edge in the payload of a node of the set is a holder in the set. -/
theorem count_edges_le_holdersIn (h : Heap) (hm : m ∈ S) (n : NodeId) :
    (h.edges m).count n ≤ h.holdersIn S n := by
  by_cases hlt : m < h.nodes.size
  · have hle := Finset.single_le_sum
      (f := fun m => open scoped Classical in if m ∈ S then (h.edges m).count n else 0)
      (fun _ _ => Nat.zero_le _) (Finset.mem_range.2 hlt)
    rw [if_pos hm] at hle
    exact hle.trans (Nat.le_add_right _ _)
  · have hnone : h.nodes[m]? = none := Array.getElem?_eq_none (Nat.not_lt.1 hlt)
    unfold edges
    rw [hnone]
    exact Nat.zero_le _

/-- A payload outside the set holds what no node of the set does. -/
theorem holdersIn_lt_of_edge (h : Heap) (hm : m ∉ S) (hn : n ∈ h.edges m) :
    h.holdersIn S n < h.payloadHolders n + h.weakHolders n := by
  have hpos : 0 < (h.edges m).count n := List.count_pos_iff.2 hn
  have hlt : m < h.nodes.size := by
    by_contra hge
    unfold edges at hn
    rw [Array.getElem?_eq_none (Nat.not_lt.1 hge)] at hn
    cases hn
  unfold holdersIn
  rw [payloadHolders_eq_sum]
  classical
  refine Nat.add_lt_add_of_lt_of_le (Finset.sum_lt_sum (fun k _ => ite_le_self _) ?_)
    (List.sum_le_sum fun e _ => ite_le_self _)
  exact ⟨m, Finset.mem_range.2 hlt, by rwa [if_neg hm]⟩

/-- A weak entry that is not keyed by the set holds what no node of the set does. -/
theorem holdersIn_lt_of_value (h : Heap) {e : WeakEntry} (he : e ∈ h.roots.weak.toList)
    (hkeyed : ¬e.KeyedIn S) (hn : e.value = some n) :
    h.holdersIn S n < h.payloadHolders n + h.weakHolders n := by
  have hpos : 0 < e.edges.count n := List.count_pos_iff.2 (by simp [WeakEntry.edges, hn])
  unfold holdersIn
  rw [payloadHolders_eq_sum]
  classical
  refine Nat.add_lt_add_of_le_of_lt (Finset.sum_le_sum fun k _ => ite_le_self _)
    (List.sum_lt_sum _ _ (fun x _ => ite_le_self _) ?_)
  exact ⟨e, he, by rwa [if_neg hkeyed]⟩

end Heap

/-- A count that does not stick counts at least the holders in a set. -/
theorem Invariant.holdersIn_le_count (inv : Invariant law w h)
    (hn : (h.status n).isSaturated = false) (S : Set NodeId) :
    h.holdersIn S n ≤ (h.status n).count := by
  have hle := h.holdersIn_le S n
  have hcount := ((inv.covered n).resolve_left (by simp [hn])).le
  unfold Heap.debts at hcount
  omega

/-! ## The least set -/

namespace Heap

/-- The garbage is part of every set that has every node that goes with it. -/
theorem garbage_subset (hS : ∀ m, h.Reclaimable S m → m ∈ S) : h.garbage ⊆ S := fun _ hn => hn S hS

/-- What goes with a part of the garbage is garbage. -/
theorem mem_garbage (inv : Invariant law w h) (hS : S ⊆ h.garbage) (hn : h.Reclaimable S n) :
    n ∈ h.garbage := by
  intro T hT
  have hmono := h.holdersIn_mono (hS.trans (garbage_subset hT)) n
  have hle := inv.holdersIn_le_count hn.unsaturated T
  have hcount := hn.count
  refine hT n ⟨hn.unpinned, hn.unsaturated, by omega, ?_⟩
  exact hn.queued.imp_right fun hpos => by omega

/-- What goes with a set has storage. -/
theorem Reclaimable.isAllocated (hn : h.Reclaimable S n) (inv : Invariant law w h) :
    h.isAllocated n = true := by
  obtain hq | hpos := hn.queued
  · exact ((inv.mem_moribund n).1 hq).1
  · refine inv.grounded n ?_
    have hle := h.holdersIn_le S n
    unfold debts
    omega

/-- So has garbage. -/
theorem isAllocated_of_mem_garbage (inv : Invariant law w h) (hn : n ∈ h.garbage) :
    h.isAllocated n = true :=
  hn {m | h.isAllocated m = true} fun _ hm => hm.isAllocated inv

/-- There is a bound to the garbage. -/
theorem finite_garbage (inv : Invariant law w h) : h.garbage.Finite :=
  (Set.finite_lt_nat h.nodes.size).subset fun _ hn =>
    lt_size_of_isAllocated (isAllocated_of_mem_garbage inv hn)

/-- The garbage depends on the statuses of nodes that are not pinned, on whether they are queued,
and on who holds them. -/
theorem garbage_congr (hpinned : k.pinned = h.pinned)
    (hstatus : ∀ n ∉ h.pinned, k.status n = h.status n)
    (hqueue : ∀ n ∉ h.pinned, n ∈ k.moribund ↔ n ∈ h.moribund)
    (hholders : ∀ S n, k.holdersIn S n = h.holdersIn S n) : k.garbage = h.garbage := by
  have hsame : ∀ S n, k.Reclaimable S n ↔ h.Reclaimable S n := by
    intro S n
    by_cases hn : n ∈ h.pinned
    · exact iff_of_false (fun hk => hk.unpinned (hpinned ▸ hn)) fun hh => hh.unpinned hn
    · have hs := hstatus n hn
      have hq := hqueue n hn
      have hS := hholders S n
      constructor
      · rintro ⟨-, hsat, hcount, hqueued⟩
        exact ⟨hn, hs ▸ hsat, hS ▸ hs ▸ hcount, hS ▸ hqueued.imp_left hq.1⟩
      · rintro ⟨-, hsat, hcount, hqueued⟩
        exact ⟨hpinned ▸ hn, hs ▸ hsat, hS ▸ hs ▸ hcount, hS ▸ hqueued.imp_left hq.2⟩
  unfold garbage
  simp only [hsame]

end Heap

/-! ## Who holds the garbage -/

/-- An entry is keyed by the set exactly if the key that it has is in the set. -/
theorem WeakEntry.keyedIn_iff {e : WeakEntry} {key : NodeId} (hkey : e.key = some key) :
    e.KeyedIn S ↔ key ∈ S := by
  unfold WeakEntry.KeyedIn
  rw [hkey]
  constructor
  · rintro ⟨key', hmem, heq⟩
    cases heq
    exact hmem
  · exact fun hmem => ⟨key, hmem, rfl⟩

namespace Heap

/-- The garbage goes with itself. -/
theorem reclaimable_of_mem_garbage (inv : Invariant law w h) (hn : n ∈ h.garbage) :
    h.Reclaimable h.garbage n := by
  -- The nodes of the garbage that go with it are enough for the least set.
  suffices hpart : n ∈ {m | m ∈ h.garbage ∧ h.Reclaimable h.garbage m} from hpart.2
  refine hn _ fun m hm => ?_
  have hsub : {m | m ∈ h.garbage ∧ h.Reclaimable h.garbage m} ⊆ h.garbage := fun _ hmem => hmem.1
  have hmono := h.holdersIn_mono hsub m
  have hle := inv.holdersIn_le_count hm.unsaturated h.garbage
  have hcount := hm.count
  refine ⟨mem_garbage inv hsub hm, hm.unpinned, hm.unsaturated, by omega, ?_⟩
  exact hm.queued.imp_right fun hpos => by omega

/-- Nothing but the garbage refers to garbage. -/
theorem debts_of_mem_garbage (inv : Invariant law w h) (hn : n ∈ h.garbage) :
    h.debts w n = h.holdersIn h.garbage n := by
  have hmem := reclaimable_of_mem_garbage inv hn
  have hcovered := ((inv.covered n).resolve_left (by simp [hmem.unsaturated])).le
  have hle := h.holdersIn_le h.garbage n
  have hcount := hmem.count
  unfold debts at hcovered ⊢
  omega

/-- What an explicit root designates is no garbage. -/
theorem not_mem_garbage_of_explicit (inv : Invariant law w h)
    (hn : n ∈ h.roots.explicit.toList) : n ∉ h.garbage := by
  intro hmem
  have hpos : 0 < h.rootHolders n := List.count_pos_iff.2 hn
  have hkept := h.holdersIn_le_kept h.garbage n
  have hdebts := debts_of_mem_garbage inv hmem
  unfold debts holders at hdebts
  omega

/-- Nor is the target of an edge in the payload of a node that is none. -/
theorem not_mem_garbage_of_edge (inv : Invariant law w h) (hm : m ∉ h.garbage)
    (hn : n ∈ h.edges m) : n ∉ h.garbage := by
  intro hmem
  have hlt := h.holdersIn_lt_of_edge hm hn
  have hdebts := debts_of_mem_garbage inv hmem
  unfold debts holders at hdebts
  omega

/-- Nor is the value of a weak entry whose key is none. -/
theorem not_mem_garbage_of_value (inv : Invariant law w h) {e : WeakEntry} {key : NodeId}
    (he : e ∈ h.roots.weak.toList) (hkey : e.key = some key) (hout : key ∉ h.garbage)
    (hn : e.value = some n) : n ∉ h.garbage := by
  intro hmem
  have hlt := h.holdersIn_lt_of_value he ((WeakEntry.keyedIn_iff hkey).not.2 hout) hn
  have hdebts := debts_of_mem_garbage inv hmem
  unfold debts holders at hdebts
  omega

end Heap

/-! ## What is left -/

open scoped Classical in
/-- What is left of a heap when the payloads of some nodes are gone and the weak entries with some
keys have expired. -/
structure Remains (D E : Set NodeId) (h k : Heap) : Prop where
  size : k.nodes.size = h.nodes.size
  payload : ∀ n ∉ D, k.payload? n = h.payload? n
  gone : ∀ n ∈ D, k.payload? n = none
  roots : k.roots =
    { h.roots with weak := Collector.expire (fun _ e => e.KeyedIn E) h.roots.weak }
  handles : k.handles = h.handles
  lost : k.lost = h.lost
  sources : k.sources = h.sources

namespace Remains

variable {D D' E E' : Set NodeId}

/-- Nothing has gone if only statuses and queues have changed. -/
theorem of_restamped (hr : Restamped h k) : Remains ∅ ∅ h k where
  size := hr.size_nodes
  payload := fun n _ => congrFun hr.payload? n
  gone := fun n hn => hn.elim
  roots := by
    rw [hr.roots, Collector.expire_of_forall_not fun _ e _ => by simp [WeakEntry.KeyedIn]]
  handles := hr.handles
  lost := hr.lost
  sources := hr.sources

theorem refl (h : Heap) : Remains ∅ ∅ h h := of_restamped (.refl h)

open scoped Classical in
theorem trans (h₁ : Remains D E h k) (h₂ : Remains D' E' k l) : Remains (D ∪ D') (E ∪ E') h l where
  size := h₂.size.trans h₁.size
  payload := by
    intro n hn
    rw [Set.mem_union, not_or] at hn
    rw [h₂.payload n hn.2, h₁.payload n hn.1]
  gone := by
    intro n hn
    by_cases hn' : n ∈ D'
    · exact h₂.gone n hn'
    · rw [h₂.payload n hn']
      exact h₁.gone n (hn.resolve_right hn')
  roots := by
    have hkeyed : ∀ e : WeakEntry,
        (decide (e.KeyedIn E) || decide (e.KeyedIn E')) = decide (e.KeyedIn (E ∪ E')) := fun e => by
      rw [← Bool.decide_or]
      refine decide_eq_decide.2 ?_
      simp only [WeakEntry.KeyedIn, Set.mem_union, or_and_right, exists_or]
    rw [h₂.roots, h₁.roots,
      Collector.expire_expire fun _ => by simp [WeakEntry.KeyedIn, Collector.hollow]]
    simp only [hkeyed]
  handles := h₂.handles.trans h₁.handles
  lost := h₂.lost.trans h₁.lost
  sources := h₂.sources.trans h₁.sources

/-- A payload that had gone before has gone. -/
theorem widen (hr : Remains D E h k) (hsub : D ⊆ D')
    (hold : ∀ n ∈ D', n ∉ D → h.payload? n = none) : Remains D' E h k :=
  { hr with
    payload := fun n hn => hr.payload n fun hD => hn (hsub hD)
    gone := fun n hn => by
      by_cases hD : n ∈ D
      · exact hr.gone n hD
      · rw [hr.payload n hD]
        exact hold n hn hD }

/-- Which entries have expired is a matter of the keys there are. -/
theorem rekey (hr : Remains D E h k) (hkeys : ∀ e ∈ h.roots.weak.toList, ∀ key, e.key = some key →
    (key ∈ E' ↔ key ∈ E)) : Remains D E' h k :=
  { hr with
    roots := by
      classical
      have hweak : Collector.expire (fun _ e => e.KeyedIn E') h.roots.weak =
          Collector.expire (fun _ e => e.KeyedIn E) h.roots.weak := by
        refine Collector.expire_congr fun slot e hslot => decide_eq_decide.2 ?_
        have he := SlotTable.mem_toList.2 ⟨slot, hslot⟩
        exact exists_congr fun key => and_congr_left (hkeys e he key)
      rw [hr.roots, hweak] }

/-- The edges of a node that are left. -/
theorem edges (hr : Remains D E h k) (n : NodeId) (hn : n ∉ D) : k.edges n = h.edges n := by
  rw [Heap.edges_eq, Heap.edges_eq, hr.payload n hn]

/-- The holders are those that are left and those that went with the set. -/
theorem holders (hr : Remains D D h k) (n : NodeId) :
    k.holders n + h.holdersIn D n = h.holders n := by
  classical
  have hpayload : k.payloadHolders n +
      (∑ m ∈ Finset.range h.nodes.size, if m ∈ D then (h.edges m).count n else 0) =
        h.payloadHolders n := by
    rw [Heap.payloadHolders_eq_sum, Heap.payloadHolders_eq_sum, hr.size, ← Finset.sum_add_distrib]
    refine Finset.sum_congr rfl fun m _ => ?_
    by_cases hm : m ∈ D
    · rw [if_pos hm, Heap.edges_eq k, hr.gone m hm]
      simp
    · rw [if_neg hm, hr.edges m hm, Nat.add_zero]
  have hweak : k.weakHolders n +
      (h.roots.weak.toList.map fun e => if e.KeyedIn D then e.edges.count n else 0).sum =
        h.weakHolders n := by
    unfold Heap.weakHolders
    rw [hr.roots, Collector.toList_expire_of_entry]
    induction h.roots.weak.toList with
    | nil => rfl
    | cons e es ih =>
      by_cases he : e.KeyedIn D <;>
        simp [he, WeakEntry.edges, Collector.hollow] at ih ⊢ <;> omega
  have hhandles : k.handleHolders n = h.handleHolders n := by
    unfold Heap.handleHolders
    rw [hr.handles]
  have hlost : k.lostHolders n = h.lostHolders n := by
    unfold Heap.lostHolders
    rw [hr.lost]
  have hroots : k.rootHolders n = h.rootHolders n := by
    unfold Heap.rootHolders
    rw [hr.roots]
  have hsum : h.holdersIn D n =
      (∑ m ∈ Finset.range h.nodes.size, if m ∈ D then (h.edges m).count n else 0) +
        (h.roots.weak.toList.map fun e => if e.KeyedIn D then e.edges.count n else 0).sum := rfl
  unfold Heap.holders
  omega

/-- What has gone has gone. -/
theorem idem (hr : Remains D E h k) : Remains D E k k :=
  { Remains.refl k with
    payload := fun n _ => rfl
    gone := hr.gone
    roots := by
      classical
      rw [hr.roots, Collector.expire_expire fun _ => by simp [WeakEntry.KeyedIn, Collector.hollow]]
      simp only [Bool.or_self] }

/-- Nothing holds a node from among what has gone. -/
theorem holdersIn_eq_zero (hr : Remains D D h k) {S : Set NodeId} (hS : S ⊆ D) (n : NodeId) :
    k.holdersIn S n = 0 := by
  have hholders := hr.idem.holders n
  have hmono := k.holdersIn_mono hS n
  omega

/-- What is left when the same has gone is the same. -/
theorem unique (hk : Remains D E h k) (hl : Remains D E h l) : Remains ∅ ∅ k l where
  size := hl.size.trans hk.size.symm
  payload := fun n _ => by
    by_cases hn : n ∈ D
    · rw [hl.gone n hn, hk.gone n hn]
    · rw [hl.payload n hn, hk.payload n hn]
  gone := fun _ hn => hn.elim
  roots := by
    rw [Collector.expire_of_forall_not fun _ e _ => by simp [WeakEntry.KeyedIn], hl.roots, hk.roots]
  handles := hl.handles.trans hk.handles.symm
  lost := hl.lost.trans hk.lost.symm
  sources := hl.sources.trans hk.sources.symm

/-- Where nothing has gone the roots are the same. -/
theorem roots_eq (hr : Remains ∅ ∅ h k) : k.roots = h.roots := by
  rw [hr.roots, Collector.expire_of_forall_not fun _ e _ => by simp [WeakEntry.KeyedIn]]

/-- Nor are there fewer holders in a set. -/
theorem holdersIn_eq (hr : Remains ∅ ∅ h k) (S : Set NodeId) (n : NodeId) :
    k.holdersIn S n = h.holdersIn S n := by
  have hedges : k.edges = h.edges := funext fun m => hr.edges m (Set.notMem_empty m)
  unfold Heap.holdersIn
  rw [hr.size, hr.roots_eq, hedges]

/-- Nor fewer holders at all. -/
theorem holders_eq (hr : Remains ∅ ∅ h k) (n : NodeId) : k.holders n = h.holders n := by
  have hholders := hr.holders n
  have hnone := hr.holdersIn_eq_zero Set.Subset.rfl n
  rw [hr.holdersIn_eq] at hnone
  omega

/-- The guards of the mutator are still there. -/
theorem guards (hr : Remains D E h k) : k.guards = h.guards := by
  unfold Heap.guards
  rw [hr.handles, hr.lost]

/-- Which nodes are pinned depends on which have storage. -/
theorem pinned (hr : Remains D E h k) (hstage : k.stage = h.stage) : k.pinned = h.pinned := by
  have hallocated : k.isAllocated = h.isAllocated := by
    funext n
    rw [Bool.eq_iff_iff, Heap.isAllocated_iff, Heap.isAllocated_iff, hstage]
  unfold Heap.pinned Heap.stackedRoots Heap.externalRoots Heap.designated
  rw [hr.roots, hr.sources, hallocated]

end Remains

/-- What no collection changes: the kinds of nodes and the limit of the memory. -/
structure Lasting (h k : Heap) : Prop where
  kind : k.kind = h.kind
  limit : k.memory.store.limit = h.memory.store.limit

namespace Lasting

theorem refl (h : Heap) : Lasting h h := ⟨rfl, rfl⟩

theorem trans (h₁ : Lasting h k) (h₂ : Lasting k l) : Lasting h l :=
  ⟨h₂.kind.trans h₁.kind, h₂.limit.trans h₁.limit⟩

/-- Both stay if only statuses and queues change. -/
theorem of_restamped (hr : Restamped h k) : Lasting h k := ⟨hr.kind, by rw [hr.eq]⟩

end Lasting

end HybridHeap
