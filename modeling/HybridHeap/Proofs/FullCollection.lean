import HybridHeap.Proofs.Condemning

/-!
# Full collections are exact

A full collection of a whole and quiet heap keeps what is reachable and nothing else attached: the
payloads of the nodes out of reach are dropped, the weak entries keyed by them expire, and of those
nodes the ones that only they refer to give back their storage. The sweep queues every node out of
reach that nothing counts any more, and these are the garbage that the closing lite sweep finds.
-/

namespace HybridHeap

open Collector Act

-- Unification would run marking where it only has to name it.
attribute [local irreducible] Collector.mark

variable {law : Law} {w : Juncture} {h h' k l : Heap} {n : NodeId} {run : Runner}
variable {D D' : Set NodeId}

/-! ## What marking finds in a whole heap -/

/-- What marking finds is reachable where no weak entry has a key that looks marked. -/
theorem Heap.Found.reach (hfresh : ∀ e ∈ h.roots.weak.toList, ∀ key, e.key = some key →
    h.isStale key = false) (hn : h.Found n) : h.Reach n := by
  induction hn with
  | root hn => exact .root hn
  | edge _ _ hm ih =>
    obtain ⟨p, hp, hedge⟩ := mem_traced hm
    exact .edge ih hp hedge
  | weak he hkey hvalue _ ih => exact .weak he hkey hvalue ih
  | stale he hkey _ hk =>
    rw [hfresh _ he _ hkey] at hk
    cases hk

namespace Heap.Whole

variable (hwhole : h.Whole) (inv : Invariant law w h) (hcalm : w.Idle) (hsettled : h.Settled)
include hwhole inv hcalm hsettled

/-- Everything in a whole heap is on the live list between full collections. -/
theorem mem_live (hn : h.isAllocated n = true) : n ∈ h.rings.toList liveList := by
  have hlisted := inv.attached n (by simp [hcalm.loose]) hn (hwhole.attached n hn)
  rwa [hsettled.1, or_iff_left List.not_mem_nil] at hlisted

/-- So nothing looks marked to the next. -/
theorem isStale_eq_false (hn : h.isAllocated n = true) : h.isStale n = false :=
  hsettled.isStale_eq_false (hwhole.mem_live inv hcalm hsettled hn)

/-- Marking finds what is reachable. -/
theorem found_iff : h.Found n ↔ h.Reach n := by
  have hfresh : ∀ m, h.isAllocated m = true → h.isStale m = false := fun m hm =>
    hwhole.isStale_eq_false inv hcalm hsettled hm
  constructor
  · exact fun hn => hn.reach fun e he key hkey => hfresh key (inv.weakKeys e he key hkey).1
  · exact fun hn => hn.found inv hcalm.dropping (fun m hm => hfresh m hm.1) fun m p _ hp =>
      hwhole.unborrowed m p hp

theorem found_eq : {n | h.Found n ∧ h.isStale n = false} = {n | h.Reach n} := by
  ext n
  show h.Found n ∧ h.isStale n = false ↔ h.Reach n
  rw [hwhole.found_iff inv hcalm hsettled]
  exact and_iff_left_of_imp fun hn =>
    hwhole.isStale_eq_false inv hcalm hsettled (hn.isAllocated inv)

/-- It misses what is out of reach. -/
theorem missed_eq : h.missed = h.unreached := by
  ext n
  refine and_congr_right fun hn => ?_
  rw [hwhole.found_iff inv hcalm hsettled,
    and_iff_left (hwhole.isStale_eq_false inv hcalm hsettled hn)]

end Heap.Whole

/-! ## What the closing sweep finds -/

/-- The nodes out of reach that only payloads of such nodes and weak entries keyed by them hold. -/
def Heap.abandoned (h : Heap) : Set NodeId :=
  {n ∈ h.unreached | h.holders n = h.holdersIn h.unreached n}

theorem Heap.abandoned_subset (h : Heap) : h.abandoned ⊆ h.unreached := Set.sep_subset _ _

namespace Condemned

/-- What is reachable and not pinned is still referred to. -/
theorem holders_pos (hc : Condemned h.unreached h k) (hpinning : h.Pinning) (hn : h.Reach n)
    (hout : n ∉ h.pinned) : 0 < k.holders n := by
  classical
  unfold Heap.holders
  cases hn with
  | root hroot =>
    rw [hpinning.rootNodes_eq] at hroot
    have hexplicit := (List.mem_append.1 hroot).resolve_right hout
    have hpos : 0 < k.rootHolders n := by
      unfold Heap.rootHolders
      rw [hc.roots]
      exact List.count_pos_iff.2 hexplicit
    omega
  | edge hm hp hedge =>
    rw [← hc.payload _ fun hmem => hmem.2 hm] at hp
    have hpos := Heap.payloadHolders_pos hp hedge
    omega
  | @weak e key _ he hkey hvalue hk =>
    have hkept : ¬e.KeyedIn h.unreached := by
      rintro ⟨key', hkey', heq⟩
      rw [hkey] at heq
      cases heq
      exact hkey'.2 hk
    have hmem : e ∈ k.roots.weak.toList := by
      rw [hc.roots, toList_expire_of_entry]
      exact List.mem_map.2 ⟨e, he, by simp [hkept]⟩
    have hpos := Heap.weakHolders_pos hmem hvalue
    omega

/-- The references to a node that are left are those that did not go with the nodes out of reach. -/
theorem count_eq (hc : Condemned h.unreached h k) (inv : Invariant law w k)
    (hguard : w.guard = none) (htorn : w.torn = false)
    (hunsaturated : (h.status n).isSaturated = false) :
    (k.status n).isSaturated = false ∧
      (k.status n).count + h.holdersIn h.unreached n = h.holders n + w.flight.count n := by
  have hle := hc.le n
  have hbound := Status.count_le_max (h.status n)
  rw [Status.isSaturated_eq_false_iff] at hunsaturated
  have hkept : (k.status n).isSaturated = false := by
    rw [Status.isSaturated_eq_false_iff]
    omega
  have hpins : w.pins.count n = 0 := by
    unfold Juncture.pins
    rw [hguard]
    rfl
  have hcount : (k.status n).count = k.holders n + w.pins.count n + w.flight.count n :=
    (inv.count n htorn).resolve_left (by simp [hkept])
  have hholders := hc.holders n
  exact ⟨hkept, by omega⟩

/-- What is garbage to the closing sweep is what is abandoned, if what is referred to in flight is
reachable. -/
theorem garbage_eq (hc : Condemned h.unreached h k) (inv : Invariant law w k)
    (hguard : w.guard = none) (htorn : w.torn = false) (hflight : ∀ n ∈ w.flight, h.Reach n)
    (hpinning : h.Pinning)
    (hunsaturated : ∀ n, h.isAllocated n = true → (h.status n).isSaturated = false)
    (hlive : ∀ n ∈ h.unreached, n ∈ h.rings.toList liveList) : k.garbage = h.abandoned := by
  have hpinned : k.pinned = h.pinned := hc.pinned hc.stage
  have hzero : ∀ S ⊆ h.unreached, ∀ n, k.holdersIn S n = 0 := fun S hS n =>
    hc.holdersIn_eq_zero hS n
  refine Set.Subset.antisymm (Heap.garbage_subset fun m hm => ?_) fun n hn => ?_
  · have hempty := hzero _ h.abandoned_subset m
    have hheld := hm.count
    have halloc : h.isAllocated m = true := by
      have hqueued := hm.queued.resolve_right (by omega)
      exact hc.isAllocated.1 ((inv.mem_moribund m).1 hqueued).1
    obtain ⟨-, hcount⟩ := hc.count_eq inv hguard htorn (hunsaturated m halloc)
    have hholders := hc.holders m
    have hout : ¬h.Reach m := fun hreach => by
      have hpos := hc.holders_pos hpinning hreach fun hmem => hm.unpinned (hpinned ▸ hmem)
      omega
    exact ⟨⟨halloc, hout⟩, by omega⟩
  · obtain ⟨hmem, hheld⟩ := hn
    obtain ⟨hkept, hcount⟩ := hc.count_eq inv hguard htorn (hunsaturated n hmem.1)
    have hnotInFlight : w.flight.count n = 0 :=
      List.count_eq_zero.2 fun hn => hmem.2 (hflight n hn)
    have h0 : (k.status n).count = 0 := by omega
    have hnone := hzero ∅ (Set.empty_subset _) n
    refine Heap.mem_garbage inv (Set.empty_subset _)
      ⟨fun hpin => ?_, hkept, by omega, .inl ((hc.queue n h0).2 (.inr (.inl ⟨hlive n hmem, hmem⟩)))⟩
    rw [hpinned] at hpin
    refine hmem.2 (.root ?_)
    rw [hpinning.rootNodes_eq]
    exact List.mem_append_right _ hpin

end Condemned

/-! ## The whole collection -/

/-- What a full collection leaves of a heap: the payloads of the nodes out of reach have gone and
the weak entries keyed by them have expired, and nothing else has. -/
structure Collected (h h' : Heap) : Prop extends Remains h.unreached h.unreached h h' where
  /-- What is attached is what is reachable. -/
  attached : ∀ n, h'.isAllocated n = true ∧ h'.isDetached n = false ↔ h.Reach n
  /-- An entry whose key is reachable stays, any other expires. -/
  expired : ∀ slot e key, h.roots.weak.get? slot = some e → e.key = some key →
    (h.Reach key → h'.roots.weak.get? slot = some e) ∧
      (¬h.Reach key → h'.roots.weak.get? slot = some hollow)
  /-- What gives its storage back is what only payloads and entries that have gone held. -/
  freed : ∀ n ∈ h.unreached, h'.stage n = .freed ↔ h.holders n = h.holdersIn h.unreached n

/-- Reclaiming what is abandoned completes a collection. -/
theorem Condemned.collected (hc : Condemned h.unreached h k) (inv : Invariant law w h)
    (hwhole : h.Whole) (hgarbage : k.garbage = h.abandoned) (hl : Cleared k l) : Collected h l := by
  have hremains : Remains h.unreached h.unreached h l := by
    have hall := hc.toRemains.trans hl.toRemains
    rwa [hgarbage, Set.union_eq_self_of_subset_right h.abandoned_subset] at hall
  have hfreed := hl.freed
  have hstage := hl.stage
  have hdetached := hl.detached
  rw [hgarbage] at hfreed hstage hdetached
  exact
    { hremains with
      attached := fun n => by
        rw [Heap.isAllocated_iff]
        by_cases hn : n ∈ h.abandoned
        · rw [hfreed n hn]
          exact iff_of_false (fun hfalse => by cases hfalse.1) hn.1.2
        · rw [hstage n hn, hdetached n hn, hc.stage, ← Heap.isAllocated_iff, Bool.eq_false_iff,
            ne_eq, hc.detached, not_or]
          constructor
          · rintro ⟨halloc, -, hout⟩
            exact (Heap.not_mem_unreached halloc).1 hout
          · intro hreach
            have halloc := hreach.isAllocated inv
            exact ⟨halloc, by simp [hwhole.attached n halloc], fun hout => hout.2 hreach⟩
      expired := fun slot e key he hkey => by
        have halloc := (inv.weakKeys e (SlotTable.mem_toList.2 ⟨slot, he⟩) key hkey).1
        have hkeyed : e.KeyedIn h.unreached ↔ ¬h.Reach key := by
          simp [WeakEntry.KeyedIn, hkey, Heap.unreached, halloc]
        rw [hremains.roots, get?_expire, he]
        exact ⟨fun hreach => by simp [hkeyed, hreach], fun hout => by simp [hkeyed, hout]⟩
      freed := fun n hn => by
        by_cases hheld : n ∈ h.abandoned
        · exact iff_of_true (hfreed n hheld) hheld.2
        · rw [hstage n hheld, hc.stage, Heap.isAllocated_iff.1 hn.1]
          exact iff_of_false (by decide) fun heq => hheld ⟨hn, heq⟩ }

namespace Collector

/-- A full collection of a whole and quiet heap in which no count sticks is exact, also while nodes
are being built and references are in flight to what is reachable. Marking and sweeping condemn what
is out of reach, and the closing lite sweep clears what is abandoned of it. -/
theorem markSweep_quiet_of_idle (hidle : run.Idle) (hquiet : h.Quiet) (htidy : law.tidy = true)
    (hready : w.guard = none → w.Idle) (hopen : w.guard = none → w.swept = none)
    (htorn : w.torn = false) (hscarred : w.scarred = false) (hflight : ∀ n ∈ w.flight, h.Reach n)
    (inv : Invariant law w h) (hi : h.isInhibited = false) (hwhole : h.Whole)
    (hunsaturated : ∀ n, h.isAllocated n = true → (h.status n).isSaturated = false)
    (hpinning : h.Pinning) {fuel : Nat} (hfuel : 2 * h.nodes.size < fuel) :
    Returns (markSweep run fuel) h fun result h' =>
      result = { marked := {n | h.Reach n}.ncard, detached := h.unreached.ncard,
                 reclaimed := h.abandoned.ncard } ∧ Invariant law { w with phase := .idle } h' ∧
        ∃ k, Condemned h.unreached h k ∧ k.garbage = h.abandoned ∧ Cleared k h' ∧ Lasting h h' := by
  have hguard := guard_eq_none inv hi
  have hcalm := hready hguard
  have hsettled : h.Settled := inv.settled hscarred (by simp [hguard])
  have hmissed := hwhole.missed_eq inv hcalm hsettled
  have hlive : {n | n ∈ h.rings.toList liveList ∧ n ∈ h.missed} = h.unreached := by
    ext n
    rw [hmissed]
    exact and_iff_right_of_imp fun hn => hwhole.mem_live inv hcalm hsettled hn.1
  refine (markSweep_condemns hidle hquiet htidy hready hopen htorn hscarred inv hi hfuel).mono ?_
  rintro _ h' ⟨k, rfl, inv₁, hc, -, inv', hp⟩
  rw [hmissed] at hc
  have hgarbage := hc.garbage_eq inv₁ hguard htorn hflight hpinning hunsaturated fun n hn =>
    hwhole.mem_live inv hcalm hsettled hn.1
  refine ⟨?_, inv', k, hc, hgarbage, hp.toCleared, hc.toLasting.trans hp.toLasting⟩
  rw [hgarbage, hlive, hwhole.found_eq inv hcalm hsettled]

/-- A full collection of a whole and quiet heap in which no count sticks is exact. -/
theorem markSweep_quiet (hidle : run.Idle) (hquiet : h.Quiet) (htidy : law.tidy = true)
    (inv : Invariant law .rest h) (hi : h.isInhibited = false) (hwhole : h.Whole)
    (hunsaturated : ∀ n, h.isAllocated n = true → (h.status n).isSaturated = false)
    (hpinning : h.Pinning) {fuel : Nat} (hfuel : 2 * h.nodes.size < fuel) :
    Returns (markSweep run fuel) h fun result h' =>
      result = { marked := {n | h.Reach n}.ncard, detached := h.unreached.ncard,
                 reclaimed := h.abandoned.ncard } ∧ Collected h h' := by
  have hwait := Juncture.ready_rest
  refine (markSweep_quiet_of_idle hidle hquiet htidy hwait.idle hwait.swept hwait.torn hwait.scarred
    (fun _ hn => absurd hn List.not_mem_nil) inv hi hwhole hunsaturated hpinning hfuel).mono ?_
  rintro result h' ⟨hresult, -, k, hcondemned, hgarbage, hcleared, -⟩
  exact ⟨hresult, hcondemned.collected inv hwhole hgarbage hcleared⟩

end Collector

namespace Mutator

/-- A full collection between the steps of the mutator, not held off, with every payload in place,
no count stuck, destructors that only release edges and root sources that ask for pinning, keeps
attached what is reachable and nothing else. -/
theorem markSweep_exact {terms : Terms} {bound depth fuel : Nat} (hr : Reached .tidying h)
    (hi : h.isInhibited = false) (hwhole : h.Whole)
    (hunsaturated : ∀ n, h.isAllocated n = true → (h.status n).isSaturated = false)
    (hquiet : h.Quiet) (hpinning : h.Pinning) (hfuel : 2 * h.nodes.size < fuel) :
    ∃ h', markSweep (runNested terms bound (depth + 1)) fuel h =
        .ok { marked := {n | h.Reach n}.ncard, detached := h.unreached.ncard,
              reclaimed := h.abandoned.ncard } h' ∧ Collected h h' := by
  have hcollection := markSweep_quiet (runNested_idle terms bound depth) hquiet rfl hr.invariant hi
    hwhole hunsaturated hpinning hfuel
  obtain ⟨result, h', hrun, hresult, hcollected⟩ := returns_iff.1 hcollection
  exact ⟨h', hresult ▸ hrun, hcollected⟩

/-- A full collection takes a node that was never referred to, the key of a weak entry. -/
theorem markSweep_exact_virgin :
    ∃ h, Reached .tidying h ∧ h.nodeCount = 3 ∧ h.roots.keyedEntries = 1 ∧
      ∃ h', markSweep (runNested .free 0 1) 8 h =
        .ok { marked := {n | h.Reach n}.ncard, detached := h.unreached.ncard,
              reclaimed := h.abandoned.ncard } h' ∧ Collected h h' := by
  have hplay : ((play .tidying [.allocate .bare .link [] none, .allocate (.root "a") .link [0] none,
      .allocate .bare .link [0] none, .weak "w" 2 (some 0) none]).any fun h =>
        h.isInhibited = false ∧ h.Quiet ∧ 2 * h.nodes.size < 8 ∧ h.roots.external = #[] ∧
        h.nodeCount = 3 ∧ h.roots.keyedEntries = 1 ∧ ∀ n < h.nodes.size, h.isDetached n = false ∧
          (h.status n).isSaturated = false ∧ (h.payload? n).all (!·.borrowed) = true) = true := by
    decide +kernel
  obtain ⟨h, hh, hfacts⟩ := (Option.any_eq_true _ _).1 hplay
  obtain ⟨hi, hquiet, hfuel, hexternal, hcount, hkeyed, hnodes⟩ := of_decide_eq_true hfacts
  have hr : Reached .tidying h := reached_of_play hh
  have hwhole : h.Whole := by
    refine ⟨fun n hn => (hnodes n (Heap.lt_size_of_isAllocated hn)).1, fun n p hp => ?_⟩
    have hlt : n < h.nodes.size := Heap.lt_size_of_payload (by simp [hp])
    have hborrowed := (hnodes n hlt).2.2
    rw [hp] at hborrowed
    simpa using hborrowed
  have hpinning : h.Pinning := fun s hs => by
    rw [hexternal] at hs
    exact absurd hs (Array.not_mem_empty _)
  exact ⟨h, hr, hcount, hkeyed, markSweep_exact hr hi hwhole
    (fun n hn => (hnodes n (Heap.lt_size_of_isAllocated hn)).2.1) hquiet hpinning hfuel⟩

end Mutator

end HybridHeap
