import HybridHeap.Proofs.Leaving
import HybridHeap.Proofs.Sparing

/-!
# Collections purge a tended heap

A heap is tended if its payloads hold nothing but traced edges, every node that has storage has its
payload, and no count comes near the largest. As long as whatever the operations under way have in
hand is reachable, every collection of such a heap reclaims the nodes whose payloads it drops, and a
full collection all that are out of reach. So the heap stays tended through any number of
collections at any time, and what is reachable is as it was.
-/

namespace HybridHeap

open Collector Act

variable {law : Law} {w : Juncture} {h k l : Heap} {n m : NodeId} {run : Runner} {fuel : Nat}
  {D D' : Set NodeId}

/-! ## What is kept -/

/-- What is reachable in the first heap is so in the second, and has the same payload there. -/
structure Keeps (h k : Heap) : Prop where
  size_le : h.nodes.size ≤ k.nodes.size
  roots : ∀ n ∈ h.rootNodes, n ∈ k.rootNodes
  payload : ∀ n, h.Reach n → k.payload? n = h.payload? n
  weak : ∀ e ∈ h.roots.weak.toList, ∀ key, e.key = some key → h.Reach key →
    e ∈ k.roots.weak.toList

namespace Keeps

theorem refl (h : Heap) : Keeps h h :=
  ⟨Nat.le_refl _, fun _ hn => hn, fun _ _ => rfl, fun _ he _ _ _ => he⟩

theorem reach (hk : Keeps h k) (hn : h.Reach n) : k.Reach n :=
  hn.carry hk.roots (fun m _ hm _ hp => (hk.payload m hm).trans hp) hk.weak

theorem trans (h₁ : Keeps h k) (h₂ : Keeps k l) : Keeps h l where
  size_le := h₁.size_le.trans h₂.size_le
  roots := fun n hn => h₂.roots n (h₁.roots n hn)
  payload := fun n hn => (h₂.payload n (h₁.reach hn)).trans (h₁.payload n hn)
  weak := fun e he key hkey hn =>
    h₂.weak e (h₁.weak e he key hkey hn) key hkey (h₁.reach hn)

end Keeps

/-! ## Tended heaps -/

/-- Nothing keeps collections from being exact: no destructor, no edge that is not traced, no
borrowed cell, no detached node, no root source, no handle and no count that could come to stick. -/
structure Heap.Tended (h : Heap) : Prop extends h.Whole where
  simple : ∀ n p, h.payload? n = some p → p.hook = none ∧ p.hidden = []
  external : h.roots.external = #[]
  handles : h.handles = []
  lost : h.lost = []
  counts : ∀ n, (h.status n).count ≤ 2
  pins : h.pinned.length + 2 < Status.countMax

/-- Whatever the operations under way have in hand is reachable. -/
structure Juncture.InReach (w : Juncture) (h : Heap) : Prop where
  flight : ∀ n ∈ w.flight, h.Reach n
  building : ∀ m ∈ w.building, ∀ n ∈ h.edges m, h.Reach n

namespace Heap.Tended

variable (ht : h.Tended)
include ht

theorem quiet : h.Quiet := fun n p hp => by rw [(ht.simple n p hp).1]; rfl

theorem pinning : h.Pinning := by
  intro s hs
  rw [ht.external] at hs
  exact absurd hs (Array.not_mem_empty _)

theorem pinned_eq : h.pinned = h.stackedRoots := by
  unfold Heap.pinned externalRoots
  rw [ht.external]
  exact List.append_nil _

/-- A count cannot come to stick by pinning. -/
theorem light (n : NodeId) : (h.status n).count + h.pinned.count n < Status.countMax := by
  have hcount := ht.counts n
  have hpinned : h.pinned.count n ≤ h.pinned.length := List.count_le_length
  have hpins := ht.pins
  omega

theorem unsaturated (n : NodeId) : (h.status n).isSaturated = false := by
  have hlight := ht.light n
  rw [Status.isSaturated_eq_false_iff]
  omega

/-- Nobody but an operation under way holds off collections. -/
theorem isInhibited (inv : Invariant law w h) (hguard : w.guard = none) :
    h.isInhibited = false := by
  have hguards : h.guards = 0 := by
    unfold Heap.guards
    rw [ht.handles, ht.lost]
    rfl
  have hinhibitors := inv.inhibitors
  unfold Juncture.guards at hinhibitors
  rw [hguards, hguard] at hinhibitors
  unfold Heap.isInhibited
  rw [hinhibitors]
  rfl

/-- The edges of what is reachable are so. -/
theorem reach_of_mem_edges (hm : h.Reach m) (hn : n ∈ h.edges m) : h.Reach n := by
  rw [Heap.edges_eq] at hn
  cases hp : h.payload? m with
  | none =>
    rw [hp] at hn
    cases hn
  | some p =>
    rw [hp] at hn
    change n ∈ p.allEdges at hn
    unfold Payload.allEdges at hn
    rw [(ht.simple m p hp).2, List.append_nil] at hn
    exact .edge hm hp hn

/-- Only what is out of reach holds what is out of reach. -/
theorem holders_eq (inv : Invariant law w h) (hin : w.InReach h) (hn : n ∈ h.unreached) :
    h.holders n = h.holdersIn h.unreached n := by
  classical
  have hhandles : h.handleHolders n = 0 := by
    unfold Heap.handleHolders
    rw [ht.handles]
    rfl
  have hlost : h.lostHolders n = 0 := by
    unfold Heap.lostHolders
    rw [ht.lost]
    rfl
  have hroots : h.rootHolders n = 0 :=
    List.count_eq_zero.2 fun hmem => hn.2 (.root (List.mem_append_left _
      (List.mem_append_left _ hmem)))
  have hpayload : ∀ m ∉ h.unreached, (h.edges m).count n = 0 := by
    refine fun m hm => List.count_eq_zero.2 fun hmem => hn.2 ?_
    have hsome : (h.payload? m).isSome := by
      rw [Heap.edges_eq] at hmem
      cases hp : h.payload? m with
      | none =>
        rw [hp] at hmem
        cases hmem
      | some p => rfl
    cases inv.owned m hsome with
    | inl halloc => exact ht.reach_of_mem_edges ((Heap.not_mem_unreached halloc).1 hm) hmem
    | inr hbuilding => exact hin.building m hbuilding n hmem
  have hweak : ∀ e ∈ h.roots.weak.toList, ¬e.KeyedIn h.unreached → e.edges.count n = 0 := by
    refine fun e he hkeyed => List.count_eq_zero.2 fun hmem => hn.2 ?_
    have hvalue : e.value = some n := Option.mem_toList.1 hmem
    cases hkey : e.key with
    | none =>
      rw [inv.hollow e he hkey] at hvalue
      cases hvalue
    | some key =>
      have halloc := (inv.weakKeys e he key hkey).1
      have hreach : h.Reach key :=
        (Heap.not_mem_unreached halloc).1 fun hmem => hkeyed ⟨key, hmem, hkey⟩
      exact .weak he hkey hvalue hreach
  -- Handles, lost handles and roots hold nothing here; what remains are sums over payloads and weak
  -- entries, equal term by term.
  unfold Heap.holders Heap.holdersIn Heap.weakHolders
  simp only [hhandles, hlost, hroots, Heap.payloadHolders_eq_sum, Nat.add_zero]
  congr 1
  · refine Finset.sum_congr rfl fun m _ => ?_
    split_ifs with hm
    · rfl
    · exact hpayload m hm
  · refine congrArg List.sum (List.map_congr_left fun e he => ?_)
    split_ifs with hkeyed
    · rfl
    · exact hweak e he hkeyed

/-- So all of it is abandoned. -/
theorem abandoned_eq (inv : Invariant law w h) (hin : w.InReach h) :
    h.abandoned = h.unreached :=
  Set.Subset.antisymm h.abandoned_subset fun _ hn => ⟨hn, ht.holders_eq inv hin hn⟩

end Heap.Tended

/-! ## What is purged -/

/-- Some nodes out of reach have lost their payloads and given their storage back, and the weak
entries keyed by them have expired. Nothing else has gone. -/
structure Purges (D : Set NodeId) (h k : Heap) : Prop extends Remains D D h k, Lasting h k where
  out : ∀ n ∈ D, h.isAllocated n = true ∧ ¬h.Reach n
  freed : ∀ n ∈ D, k.stage n = .freed
  stage : ∀ n ∉ D, k.stage n = h.stage n
  detached : ∀ n ∉ D, k.isDetached n = h.isDetached n
  le : ∀ n, (k.status n).count ≤ (h.status n).count

namespace Purges

theorem refl (h : Heap) : Purges ∅ h h :=
  { Remains.refl h, Lasting.refl h with
    out := fun _ hn => hn.elim
    freed := fun _ hn => hn.elim
    stage := fun _ _ => rfl
    detached := fun _ _ => rfl
    le := fun _ => Nat.le_refl _ }

theorem not_mem_of_reach (hp : Purges D h k) (hn : h.Reach n) : n ∉ D := fun hmem =>
  (hp.out n hmem).2 hn

theorem isAllocated (hp : Purges D h k) (hn : n ∉ D) : k.isAllocated n = h.isAllocated n := by
  rw [Bool.eq_iff_iff, Heap.isAllocated_iff, Heap.isAllocated_iff, hp.stage n hn]

theorem not_mem_of_isAllocated (hp : Purges D h k) (hn : k.isAllocated n = true) : n ∉ D := by
  intro hmem
  rw [Heap.isAllocated_iff, hp.freed n hmem] at hn
  cases hn

/-- A node that has no storage keeps its payload, if it has one. -/
theorem payload_of_unallocated (hp : Purges D h k) (hn : h.isAllocated n = false) :
    k.isAllocated n = false ∧ k.payload? n = h.payload? n := by
  have hout : n ∉ D := fun hmem => by
    rw [(hp.out n hmem).1] at hn
    cases hn
  exact ⟨(hp.isAllocated hout).trans hn, hp.payload n hout⟩

/-- What payload there is was there before. -/
theorem payload_of_some (hp : Purges D h k) {p : Payload} (hn : k.payload? n = some p) :
    h.payload? n = some p := by
  by_cases hmem : n ∈ D
  · rw [hp.gone n hmem] at hn
    cases hn
  · rw [← hp.payload n hmem]
    exact hn

theorem stackedRoots (hp : Purges D h k) : k.stackedRoots = h.stackedRoots := by
  unfold Heap.stackedRoots
  rw [hp.roots]

theorem rootNodes (hp : Purges D h k) (ht : h.Tended) : k.rootNodes = h.rootNodes := by
  have hexternal : k.roots.external = #[] := by
    rw [hp.roots]
    exact ht.external
  rw [Heap.rootNodes_eq hexternal, Heap.rootNodes_eq ht.external, hp.stackedRoots, hp.roots]

/-- What is reachable is kept. -/
theorem keeps (hp : Purges D h k) (ht : h.Tended) : Keeps h k where
  size_le := hp.size.ge
  roots := fun n hn => hp.rootNodes ht ▸ hn
  payload := fun n hn => hp.payload n (hp.not_mem_of_reach hn)
  weak := fun e he key hkey hn => by
    classical
    have hkeyed : ¬e.KeyedIn D := by
      rintro ⟨key', hmem, heq⟩
      rw [hkey] at heq
      cases heq
      exact hp.not_mem_of_reach hn hmem
    rw [hp.roots, toList_expire_of_entry]
    exact List.mem_map.2 ⟨e, he, by simp [hkeyed]⟩

/-- What is reachable stays so, and nothing else becomes so. -/
theorem reach_iff (hp : Purges D h k) (ht : h.Tended) : k.Reach n ↔ h.Reach n := by
  constructor
  · refine fun hn => hn.carry (fun m hm => hp.rootNodes ht ▸ hm)
      (fun m p _ _ hm => hp.payload_of_some hm) fun e he key hkey _ => ?_
    rw [hp.roots] at he
    refine (mem_toList_expire he).resolve_left fun heq => ?_
    rw [heq] at hkey
    cases hkey
  · exact (hp.keeps ht).reach

/-- What is purged of a tended heap leaves it tended. -/
theorem tended (hp : Purges D h k) (ht : h.Tended) : k.Tended where
  attached := fun n hn => by
    have hmem := hp.not_mem_of_isAllocated hn
    rw [hp.detached n hmem]
    exact ht.attached n (hp.isAllocated hmem ▸ hn)
  unborrowed := fun n p hn => ht.unborrowed n p (hp.payload_of_some hn)
  simple := fun n p hn => ht.simple n p (hp.payload_of_some hn)
  external := by
    rw [hp.roots]
    exact ht.external
  handles := hp.handles.trans ht.handles
  lost := hp.lost.trans ht.lost
  counts := fun n => (hp.le n).trans (ht.counts n)
  pins := by
    have hexternal : k.roots.external = #[] := by
      rw [hp.roots]
      exact ht.external
    have hpinned : k.pinned = h.pinned := by
      rw [ht.pinned_eq]
      unfold Heap.pinned Heap.externalRoots
      rw [hexternal, hp.stackedRoots]
      exact List.append_nil _
    rw [hpinned]
    exact ht.pins

/-- What is in hand stays in reach. -/
theorem inReach (hp : Purges D h k) (ht : h.Tended) (inv : Invariant law w h) (hin : w.InReach h) :
    w.InReach k where
  flight := fun n hn => (hp.reach_iff ht).2 (hin.flight n hn)
  building := fun m hm n hn => by
    obtain ⟨-, hpayload⟩ := hp.payload_of_unallocated (inv.unborn_of_building hm).2
    rw [Heap.edges_eq, hpayload, ← Heap.edges_eq] at hn
    exact (hp.reach_iff ht).2 (hin.building m hm n hn)

theorem trans (ht : h.Tended) (h₁ : Purges D h k) (h₂ : Purges D' k l) : Purges (D ∪ D') h l :=
  { h₁.toRemains.trans h₂.toRemains, h₁.toLasting.trans h₂.toLasting with
    out := by
      rintro n (hn | hn)
      · exact h₁.out n hn
      · obtain ⟨halloc, hout⟩ := h₂.out n hn
        have hmem := h₁.not_mem_of_isAllocated halloc
        exact ⟨h₁.isAllocated hmem ▸ halloc, fun hreach => hout ((h₁.reach_iff ht).2 hreach)⟩
    freed := by
      intro n hn
      by_cases hmem : n ∈ D'
      · exact h₂.freed n hmem
      · rw [h₂.stage n hmem]
        exact h₁.freed n (hn.resolve_right hmem)
    stage := fun n hn => by
      rw [Set.mem_union, not_or] at hn
      rw [h₂.stage n hn.2, h₁.stage n hn.1]
    detached := fun n hn => by
      rw [Set.mem_union, not_or] at hn
      rw [h₂.detached n hn.2, h₁.detached n hn.1]
    le := fun n => (h₂.le n).trans (h₁.le n) }

end Purges

/-- The heap after collections: they have purged it, and it stands as it did. -/
structure Purged (law : Law) (w : Juncture) (h k : Heap) : Prop where
  inv : Invariant law w k
  purges : ∃ D, Purges D h k
  standing : k.standing = h.standing

namespace Purged

theorem refl (inv : Invariant law w h) : Purged law w h h := ⟨inv, ⟨∅, .refl h⟩, rfl⟩

theorem trans (ht : h.Tended) (h₁ : Purged law w h k) (h₂ : Purged law w k l) :
    Purged law w h l := by
  obtain ⟨D, hp₁⟩ := h₁.purges
  obtain ⟨D', hp₂⟩ := h₂.purges
  exact ⟨h₂.inv, ⟨_, hp₁.trans ht hp₂⟩, h₂.standing.trans h₁.standing⟩

end Purged

/-! ## Collections -/

/-- What a lite sweep clears of a tended heap is purged. -/
theorem Cleared.purges (hc : Cleared h k) (hl : Lasting h k) (ht : h.Tended)
    (inv : Invariant law w h) : Purges h.garbage h k :=
  { hc.toRemains, hl with
    out := fun _ hn => ⟨Heap.isAllocated_of_mem_garbage inv hn, fun hreach =>
      hreach.not_mem_garbage inv ht.pinning hn⟩
    freed := hc.freed
    stage := hc.stage
    detached := hc.detached
    le := fun n => by
      have hcount := hc.count n (ht.light n)
      omega }

/-- So is what a full collection has condemned and then cleared. -/
theorem Condemned.purges (hc : Condemned h.unreached h k) (hl : Cleared k l)
    (hlasting : Lasting h l) (hgarbage : k.garbage = h.unreached) (ht : h.Tended) :
    Purges h.unreached h l := by
  have hremains := hc.toRemains.trans hl.toRemains
  have hfreed := hl.freed
  have hstage := hl.stage
  have hdetached := hl.detached
  rw [hgarbage] at hremains hfreed hstage hdetached
  rw [Set.union_self] at hremains
  exact
    { hremains, hlasting with
      out := fun _ hn => hn
      freed := hfreed
      stage := fun n hn => (hstage n hn).trans (congrFun hc.stage n)
      detached := fun n hn => by
        rw [hdetached n hn, Bool.eq_iff_iff, hc.detached, or_iff_left hn]
      le := fun n => by
        have hpinned : k.pinned = h.pinned := hc.pinned hc.stage
        have hle := hc.le n
        have hlight := ht.light n
        rw [← hpinned] at hlight
        have hcount := hl.count n (by omega)
        omega }

namespace Collector

variable (hidle : run.Idle) (hrun : ∀ program, Leaves Heap.gauge (run program))
  (htidy : law.tidy = true) (ht : h.Tended) (hsteady : w.Steady) (hguard : w.guard = none)
  (inv : Invariant law w h) (hfuel : 2 * h.nodes.size < fuel)
include hidle hrun htidy ht hsteady hguard inv hfuel

/-- A lite sweep purges. -/
theorem liteSweep_purges :
    Returns (liteSweep run fuel) h fun _ h' => Purged law w h h' := by
  refine ((liteSweep_quiet_of_idle hidle ht.quiet htidy hsteady.idle hsteady.swept hsteady.torn inv
    (ht.isInhibited inv hguard) hfuel).and ((leaves_liteSweep hrun fuel).leads h)).mono ?_ ?_
  · rintro _ h' ⟨⟨-, inv', hc, hl⟩, hstanding⟩
    exact ⟨inv', ⟨_, hc.purges hl ht inv⟩, hstanding⟩
  · exact fun _ _ he => he.1

variable (hcollecting : w.collecting = false) (hin : w.InReach h)
include hcollecting hin

/-- A full collection purges everything that is out of reach. It fails only if the trigger does not
fit in a word, and then it has come to its end but for that. -/
theorem collect_purges :
    Leads (collect run fuel) h (fun _ h' => Purged law w h h' ∧ Purges h.unreached h h')
      fun e h' => e = .overflow ∧ h'.Strained ∧ Purged law w h h' ∧ Purges h.unreached h h' := by
  have hi := ht.isInhibited inv hguard
  have hreach : ∀ n, h.Reach n ↔ Heap.Reach { h with collecting := true } n := fun n =>
    Heap.Reach.congr rfl rfl rfl
  have hunreached : Heap.unreached { h with collecting := true } = h.unreached := by
    ext n
    exact and_congr_right' (not_congr (hreach n)).symm
  have ht' : Heap.Tended { h with collecting := true } := { ht with }
  have hin' : Juncture.InReach
      { w with collecting := true, collected := some h.chronicle.collections }
      { h with collecting := true } :=
    ⟨fun n hn => (hreach n).1 (hin.flight n hn),
      fun m hm n hn => (hreach n).1 (hin.building m hm n hn)⟩
  -- That the standing of the heap is left alone is known of any collection and is added here.
  suffices hlead : Leads (collect run fuel) h
      (fun _ h' => Invariant law w h' ∧ Purges h.unreached h h') fun e h' =>
        e = .overflow ∧ h'.Strained ∧ Invariant law w h' ∧ Purges h.unreached h h' by
    refine (hlead.and ((leaves_collect hrun fuel).leads h)).mono ?_ ?_
    · rintro _ h' ⟨⟨inv', hp⟩, hstanding⟩
      exact ⟨⟨inv', ⟨_, hp⟩, hstanding⟩, hp⟩
    · rintro e h' ⟨⟨he, hstrained, inv', hp⟩, hstanding⟩
      exact ⟨he, hstrained, ⟨inv', ⟨_, hp⟩, hstanding⟩, hp⟩
  unfold collect
  simp only [leads_bind, leads_view, inv.collecting, hcollecting, Bool.false_eq_true, if_false]
  simp only [leads_update, leads_ensuring, leads_bind, leads_view]
  refine (markSweep_quiet_of_idle (w :=
      { w with collecting := true, collected := some h.chronicle.collections }) hidle ht'.quiet
    htidy (fun hnone => { hsteady.idle hnone with }) hsteady.swept hsteady.torn hsteady.scarred
    hin'.flight inv.engage hi ht'.toWhole (fun n _ => ht'.unsaturated n) ht'.pinning hfuel).leads ?_
  rintro result h₁ ⟨-, inv₁, k, hc, hgarbage, hl, hlasting⟩
  have hopen := hsteady.unrecorded hguard
  rw [← hsteady.calm hguard hcollecting] at inv₁
  rw [ht'.abandoned_eq inv.engage hin'] at hgarbage
  have hpurges : Purges h.unreached h h₁ := by
    have hp := hc.purges hl hlasting hgarbage ht'
    rw [hunreached] at hp
    exact { hp with out := fun _ hn => hn }
  refine (retune_changes.and (retune_spec inv₁)).mono ?_ ?_
  · rintro _ _ ⟨⟨trigger, events, rfl⟩, inv₂⟩
    have inv₃ := Invariant.register (w := { w with collecting := true }) inv₂ result result.marked
      h₁.bytes
    simp only [record, report, leads_update]
    split
    · exact ⟨Invariant.disengage hcollecting { inv₃ with } (hopen _), { hpurges with }⟩
    · exact ⟨Invariant.disengage hcollecting { inv₃ with } (hopen _), { hpurges with }⟩
  · rintro e _ ⟨⟨rfl, rfl, hstrained⟩, -⟩
    exact ⟨rfl, hstrained, inv₁.disengage hcollecting (hopen _), { hpurges with }⟩

/-- The collections that are due before an allocation purge. -/
theorem collectIfDue_purges :
    Leads (collectIfDue run fuel) h (fun _ h' => Purged law w h h')
      fun e h' => e = .overflow ∧ h'.Strained ∧ Purged law w h h' := by
  have hfull : ∀ k, Purged law w h k →
      Leads (do if ← Act.view fullDue then discard <| collect run fuel) k
        (fun _ h' => Purged law w h h')
        fun e h' => e = .overflow ∧ h'.Strained ∧ Purged law w h h' := by
    intro k hk
    obtain ⟨D, hp⟩ := hk.purges
    have hfuel' : 2 * k.nodes.size < fuel := by
      rw [hp.size]
      exact hfuel
    simp only [leads_bind, leads_view]
    split
    · rw [leads_discard]
      refine (collect_purges hidle hrun htidy (hp.tended ht) hsteady hguard hk.inv hfuel'
        hcollecting (hp.inReach ht inv hin)).mono ?_ ?_
      · exact fun _ _ hpost => hk.trans ht hpost.1
      · exact fun _ _ hpost => ⟨hpost.1, hpost.2.1, hk.trans ht hpost.2.2.1⟩
    · exact hk
  unfold collectIfDue
  simp only [leads_bind, leads_view, ht.isInhibited inv hguard, Bool.not_false, if_true]
  split
  · simp only [leads_bind, leads_discard]
    refine (liteSweep_purges hidle hrun htidy ht hsteady hguard inv hfuel).leads ?_
    intro _ h₁ hp₁
    have hafter := hfull h₁ hp₁
    simp only [leads_bind, leads_view] at hafter
    exact hafter
  · have hafter := hfull h (.refl inv)
    simp only [leads_bind, leads_view] at hafter
    exact hafter

end Collector

end HybridHeap
