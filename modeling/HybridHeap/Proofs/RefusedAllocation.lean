import HybridHeap.Proofs.HoldingOff
import HybridHeap.Proofs.Mirroring

/-!
# Allocations that are refused

An allocation builds its payload first, runs the collections that are due, and only then asks for a
block. If there is none to be had, nothing has come of it but that payload: no node has storage, no
list, root, mark or byte has been added, and the edges of the payload are still counted. Dropping it
runs its destructor once, in a heap in which any step may be taken, and releases its edges once
each. Whatever was run meanwhile has left the payload as it was built, since no step leads to a node
that has no storage.
-/

namespace HybridHeap

open Collector Act

variable {law : Law} {w : Juncture} {h k l h' : Heap} {run : Runner} {fuel : Nat} {n m : NodeId}
  {kind : Kind} {p : Payload}

/-! ## What a heap holds -/

/-- The heaps hold the same: nodes that have storage, entries of the two lists, roots, handles,
blocks with their marks, and bytes. -/
structure Heap.SameHoldings (h k : Heap) : Prop where
  stage : k.stage = h.stage
  nodeCount : k.nodeCount = h.nodeCount
  lists : k.rings.toList = h.rings.toList
  roots : k.roots = h.roots
  handles : k.handles = h.handles
  memory : k.memory = h.memory
  inhibitors : k.inhibitors = h.inhibitors

namespace Heap.SameHoldings

theorem trans (h₁ : h.SameHoldings k) (h₂ : k.SameHoldings l) : h.SameHoldings l where
  stage := h₂.stage.trans h₁.stage
  nodeCount := h₂.nodeCount.trans h₁.nodeCount
  lists := h₂.lists.trans h₁.lists
  roots := h₂.roots.trans h₁.roots
  handles := h₂.handles.trans h₁.handles
  memory := h₂.memory.trans h₁.memory
  inhibitors := h₂.inhibitors.trans h₁.inhibitors

/-- Building a payload adds nothing. -/
theorem build (inv : Invariant law w h) (kind : Kind) (p : Payload) :
    h.SameHoldings (h.build kind p) where
  stage := h.stage_build kind p
  nodeCount := rfl
  lists := inv.rings.toList_newNode
  roots := rfl
  handles := rfl
  memory := rfl
  inhibitors := rfl

/-- A payload that goes takes nothing with it. -/
theorem strip (h : Heap) (n : NodeId) : h.SameHoldings (h.strip n) :=
  ⟨funext (h.stage_strip n), rfl, rfl, rfl, rfl, rfl, rfl⟩

/-- Changing counts and queues adds and takes nothing. -/
theorem of_restamped (hr : Restamped h k) : h.SameHoldings k := by
  refine ⟨hr.stage, ?_, ?_, hr.roots, hr.handles, ?_, ?_⟩
  all_goals rw [hr.eq]

end Heap.SameHoldings

/-! ## What is known of a node that is being built -/

namespace Juncture

/-- The juncture while a node is being built whose kind and payload are known. -/
def planning (w : Juncture) (n : NodeId) (kind : Kind) (p : Payload) : Juncture :=
  { w with building := n :: w.building, plans := Function.update w.plans n (some (kind, p)) }

theorem plans_planning (w : Juncture) (n : NodeId) (kind : Kind) (p : Payload) :
    (w.planning n kind p).plans n = some (kind, p) := Function.update_self ..

/-- Where a collection may be asked for one may be while a node is being built. -/
theorem Open.planning (hw : w.Open) (n : NodeId) (kind : Kind) (p : Payload) :
    (w.planning n kind p).Open :=
  have hopen := hw.build n
  { hopen with idle := fun hguard => { hopen.idle hguard with } }

/-- Where the mutator may run, the destructor of a node may that is being built. -/
theorem Ready.planning (hw : w.Ready) (n : NodeId) (kind : Kind) (p : Payload) :
    Ready { w.planning n kind p with dying := n :: w.dying, started := n :: w.started } :=
  have hstart := hw.start n
  { hstart with idle := fun hguard => { hstart.idle hguard with } }

end Juncture

/-- A node is known to have the kind and the payload with which it is built. -/
theorem Invariant.build_planning (inv : Invariant law (w.holding p.allEdges) h) (kind : Kind) :
    Invariant law (w.planning h.nodes.size kind p) (h.build kind p) :=
  have hbuild := inv.build kind
  { hbuild with
    planned := fun m kind' p' hm => by
      by_cases hmn : m = h.nodes.size
      · subst hmn
        cases (w.plans_planning _ kind p).symm.trans hm
        refine ⟨Heap.lt_size_of_payload (by simp [h.payload?_build]), fun _ => ⟨?_, ?_⟩⟩
        · unfold Heap.kind
          rw [h.getElem?_build, if_pos rfl]
          rfl
        · rw [h.payload?_build, if_pos rfl]
      · exact hbuild.planned m kind' p' ((Function.update_of_ne hmn ..).symm.trans hm) }

namespace Collector

/-! ## Releasing edges -/

/-- Counting a reference in flight down lowers the count of its target by one, unless that sticks,
and no other count. -/
theorem decrement_counts (inv : Invariant law (w.holding [n]) h) :
    Returns (decrement n) h fun _ h' => ∀ m, (h.status m).isSaturated = false →
      (h'.status m).count + [n].count m = (h.status m).count := by
  have hpos : 0 < h.debts (w.holding [n]) n := by
    rw [h.debts_holding, if_pos rfl]
    omega
  have hlt := Heap.lt_size_of_isAllocated (inv.grounded n hpos)
  cases hsat : (h.status n).isSaturated with
  | true =>
    refine (decrement_leads (Status.decrement?_of_isSaturated hsat)).mono ?_
    rintro _ _ rfl m hm
    show ((h.setStatus n _).status m).count + _ = _
    have hmn : m ≠ n := fun heq => by
      rw [heq, hsat] at hm
      cases hm
    rw [Heap.status_setStatus hlt, if_neg hmn]
    simp [Ne.symm hmn]
  | false =>
    have hle := ((inv.covered n).resolve_left (by simp [hsat])).le
    obtain ⟨t, outcome, heq, hcount, -⟩ := Status.decrement?_eq hsat (by omega)
    refine (decrement_leads heq).mono ?_
    rintro _ _ rfl m -
    show ((h.setStatus n t).status m).count + _ = _
    rw [Heap.status_setStatus hlt]
    by_cases hmn : m = n
    · rw [if_pos hmn, hmn]
      simpa using hcount
    · rw [if_neg hmn]
      simp [Ne.symm hmn]

/-- Releasing references in flight lowers the counts of their targets by as many as there are of
each. -/
theorem releaseAll_counts {ns : List NodeId} (inv : Invariant law (w.holding ns) h) :
    Returns (releaseAll ns) h fun _ h' => ∀ m, (h.status m).isSaturated = false →
      (h'.status m).count + ns.count m = (h.status m).count := by
  induction ns generalizing h with
  | nil => exact fun m _ => rfl
  | cons n ns ih =>
    unfold releaseAll
    rw [Returns, leads_ensuring]
    refine ((decrement_spec (w := w.holding ns) inv).and
      (decrement_counts (w := w.holding ns) inv)).mono ?_ fun _ _ hf => hf.1.elim
    rintro _ h₁ ⟨⟨inv₁, hl₁⟩, hcount₁⟩
    refine (ih inv₁).leads fun _ h₂ hcount₂ m hm => ?_
    have h1 := hcount₁ m hm
    -- A count that has gone down does not stick if it did not before.
    have hm₁ : (h₁.status m).isSaturated = false := by
      have hle := hl₁.le m
      have hbound := Status.count_le_max (h.status m)
      rw [Status.isSaturated_eq_false_iff] at hm ⊢
      omega
    have h2 := hcount₂ m hm₁
    rw [← List.singleton_append, List.count_append]
    omega

end Collector

/-! ## Dropping the payload -/

/-- The heap in which dropping the payload of a node has begun. -/
def Heap.begun (h : Heap) (n : NodeId) : Heap := (h.emit (.dropped n)).befall n .started

namespace Collector

/-- The destructor of a node, if its payload has one, is run once and leads from one heap to
another. -/
def Destructs (run : Runner) (n : NodeId) (h k : Heap) : Option Program → Prop
  | none => k = h
  | some hook => ∃ answers l, run hook { h with dying := n :: h.dying } = .ok answers l ∧
      k = { l with dying := l.dying.tail }.emit (.destructor n answers)

/-- Running the destructor of a payload that is there does so. -/
theorem destructs_of_runDestructor (hp : h.payload? n = some p)
    (hok : runDestructor run n h = .ok () k) : Destructs run n h k p.hook := by
  unfold runDestructor at hok
  obtain ⟨_, _, hview, hok⟩ := bind_eq_ok.1 hok
  cases hview
  dsimp only at hok
  rw [hp, Option.bind_some] at hok
  cases hhook : p.hook with
  | none =>
    rw [hhook] at hok
    cases hok
    rfl
  | some hook =>
    rw [hhook] at hok
    obtain ⟨_, _, hdying, hok⟩ := bind_eq_ok.1 hok
    cases hdying
    obtain ⟨answers, _, hran, hemit⟩ := bind_eq_ok.1 hok
    cases hemit
    obtain ⟨l, hrun, htail⟩ := ensuring_eq_ok.1 hran
    cases htail
    exact ⟨answers, l, hrun, rfl⟩

/-- Dropping a payload is to run its destructor, to release its edges and to say so. -/
theorem dropPayload_eq_ok :
    dropPayload run n h = .ok () h' ↔ ∃ k l, runDestructor run n (h.begun n) = .ok () k ∧
      releasePayload n k = .ok () l ∧ h' = l.befall n .returned := by
  unfold dropPayload
  simp only [bind_eq_ok, onFailure_eq_ok, ensuring_eq_ok]
  constructor
  · rintro ⟨_, _, hbegun, _, l, ⟨k, hdestructor, hrelease⟩, hreturned⟩
    cases hbegun
    cases hreturned
    exact ⟨k, l, hdestructor, hrelease, rfl⟩
  · rintro ⟨k, l, hdestructor, hrelease, rfl⟩
    exact ⟨_, _, rfl, _, l, ⟨k, hdestructor, hrelease⟩, rfl⟩

/-- What becomes of a payload whose node has no storage and is not to get any: its destructor is run
once, from a heap in which any step may be taken, and leaves it there; then its edges are released
once each, and nothing else changes. The destructor leads to `k` and the releases to `l`. -/
structure Disposes (law : Law) (run : Runner) (n : NodeId) (p : Payload) (h k l h' : Heap) :
    Prop where
  dropped : dropPayload run n h = .ok () h'
  begun : h.SameHoldings (h.begun n)
  /-- No operation is under way that would keep the destructor from a step. -/
  ready : ∃ w, w.Ready ∧ Invariant law w { h.begun n with dying := n :: h.dying }
  destructs : Destructs run n (h.begun n) k p.hook
  unchanged : k.payload? n = some p
  released : releaseAll p.allEdges (k.strip n) = .ok () l
  counts : ∀ m, (k.status m).isSaturated = false →
    (l.status m).count + p.allEdges.count m = (k.status m).count
  queue : ∀ m ∈ l.moribund, m ∈ k.moribund ∨ m ∈ p.allEdges ∧ (l.status m).count = 0
  returned : h' = l.befall n .returned
  holdings : k.SameHoldings h'
  gone : h'.payload? n = none
  unborn : h'.stage n = .unborn
  fates : h'.fates n = [.started, .returned]

/-- Releasing the edges of a payload adds and takes nothing, and lowers counts by as many as there
are edges. -/
theorem releaseAll_strip (inv : Invariant law w k) (hn : n ∈ w.started) (hb : n ∈ w.building)
    (hp : k.payload? n = some p) :
    Returns (releaseAll p.allEdges) (k.strip n) fun _ l => Lowered (k.strip n) l ∧
      ∀ m, (k.status m).isSaturated = false →
        (l.status m).count + p.allEdges.count m = (k.status m).count := by
  have hedges : k.edges n = p.allEdges := by
    rw [Heap.edges_eq, hp]
    rfl
  have hstrip : Invariant law
      (Juncture.holding { w with building := w.building.filter (· ≠ n) } p.allEdges)
      (k.strip n) := by
    rw [← hedges]
    refine inv.strip hn (fun m => ?_) (fun m hm => hm) (fun m hm _ => hm) fun ha => ?_
    · simp [List.mem_filter]
    · exact absurd hb (inv.not_mem_building ha)
  refine ((releaseAll_spec hstrip).and (releaseAll_counts hstrip)).mono (fun _ l hpost => ?_)
    fun _ _ hf => hf.1
  refine ⟨hpost.1.2, fun m hm => ?_⟩
  have hcounts := hpost.2 m
  rw [k.status_strip] at hcounts
  exact hcounts hm

/-- Where releases lower a count, a reference to its node is among those released. -/
theorem mem_of_count_lt {ns : List NodeId} (hl : Lowered (h.strip n) k)
    (hcounts : ∀ m, (h.status m).isSaturated = false →
      (k.status m).count + ns.count m = (h.status m).count)
    (hlt : (k.status m).count < (h.status m).count) : m ∈ ns := by
  have hm : (h.status m).isSaturated = false := by
    rw [Bool.eq_false_iff]
    intro hsat
    have hstuck := hl.stuck m (by rwa [h.status_strip])
    rw [Status.isSaturated_iff] at hsat hstuck
    omega
  have hcount := hcounts m hm
  exact List.count_pos_iff.1 (by omega)

/-- A payload that is dropped where its node has no storage is disposed of. -/
theorem disposes_of_dropPayload (hkeeps : run.Keeps law w.torn w.scarred)
    (hready : Juncture.Ready { w with dying := n :: w.dying, started := n :: w.started })
    (inv : Invariant law w h) (hb : n ∈ w.building) (hstarted : n ∉ w.started)
    (hplan : w.plans n = some (kind, p)) (hok : dropPayload run n h = .ok () h') :
    ∃ k l, Disposes law run n p h k l h' := by
  have hp : h.payload? n = some p := ((inv.planned n kind p hplan).2 hb).2
  have hbegun : Invariant law { w with started := n :: w.started } (h.begun n) :=
    { inv.recordStart hready.parting hstarted (by simp [hp]) with }
  obtain ⟨k, l, hdestructor, hrelease, hreturned⟩ := dropPayload_eq_ok.1 hok
  -- The destructor leaves the payload as it was built, since the node is known to be being built.
  have invk : Invariant law { w with started := n :: w.started } k :=
    (runDestructor_spec (w := { w with started := n :: w.started }) hkeeps hbegun n hready).of_ok
      hdestructor
  have hpk : k.payload? n = some p := ((invk.planned n kind p hplan).2 hb).2
  have hreleased : releaseAll p.allEdges (k.strip n) = .ok () l := by
    unfold releasePayload at hrelease
    obtain ⟨_, _, hview, hrelease⟩ := bind_eq_ok.1 hrelease
    cases hview
    obtain ⟨_, _, hstrip, hrelease⟩ := bind_eq_ok.1 hrelease
    cases hstrip
    dsimp only at hrelease
    rw [hpk] at hrelease
    exact hrelease
  obtain ⟨hlowered, hcounts⟩ :=
    (releaseAll_strip invk List.mem_cons_self hb hpk).of_ok hreleased
  exact ⟨k, l,
    { dropped := hok
      begun := ⟨rfl, rfl, rfl, rfl, rfl, rfl, rfl⟩
      ready := ⟨_, hready, { hbegun with dying := congrArg (n :: ·) inv.dying }⟩
      destructs := destructs_of_runDestructor hp hdestructor
      unchanged := hpk
      released := hreleased
      counts := hcounts
      queue := fun m hm => by
        obtain hm | ⟨hlt, h0⟩ := hlowered.fresh m hm
        · exact .inl hm
        · rw [k.status_strip] at hlt
          exact .inr ⟨mem_of_count_lt hlowered hcounts hlt, h0⟩
      returned := hreturned
      holdings := by
        rw [hreturned]
        exact (Heap.SameHoldings.strip k n).trans
          { Heap.SameHoldings.of_restamped hlowered.toRestamped with }
      gone := by
        rw [hreturned]
        show l.payload? n = none
        rw [hlowered.payload?, k.payload?_strip, if_pos rfl]
      unborn := by
        rw [hreturned]
        show l.stage n = .unborn
        rw [hlowered.stage, k.stage_strip, (invk.building n hb).1]
      fates := by
        rw [hreturned, l.fates_befall, if_pos rfl, hlowered.fates]
        show k.fates n ++ _ = _
        rw [(invk.started n List.mem_cons_self).2]
        rfl }⟩

/-! ## The refusal -/

/-- There is no storage for a node with the given payload: the payload is built, the collections
that are due are run and lead to a second heap, and nothing of the size of the node is to be had
there. The payload is as it was built. -/
structure Refused (run : Runner) (fuel : Nat) (kind : Kind) (p : Payload) (h h₁ : Heap) : Prop where
  built : h.SameHoldings (h.build kind p)
  collected : collectIfDue run fuel (h.build kind p) = .ok () h₁
  waiting : h₁.kind h.nodes.size = kind ∧ h₁.payload? h.nodes.size = some p
  unborn : h₁.stage h.nodes.size = .unborn
  refused : h₁.memory.admit? kind.size = none

/-- An allocation comes to nothing: it is refused storage, has disposed of the payload, and reports
the size of the node. -/
def ComesToNothing (law : Law) (run : Runner) (fuel : Nat) (kind : Kind) (p : Payload) (bytes : Nat)
    (h h' : Heap) : Prop :=
  bytes = kind.size ∧ ∃ h₁ k l, Refused run fuel kind p h h₁ ∧
    Disposes law run h.nodes.size p h₁ k l h'

/-- A node that fails to get storage for want of memory has asked for it after the collections that
are due. -/
theorem refused_of_place {b : Nat} (hrun : ∀ program, Avoids (.outOfMemory b) (run program))
    (herror : place run fuel n h = .error (.outOfMemory b) k) :
    collectIfDue run fuel h = .ok () k ∧ b = (k.kind n).size ∧
      k.memory.admit? (k.kind n).size = none := by
  cases hdue : collectIfDue run fuel h with
  | error e h₁ =>
    have hsame : place run fuel n h = .error e h₁ := bind_eq_error.2 (.inl hdue)
    cases hsame.symm.trans herror
    exact absurd hdue (avoids_collectIfDue rfl hrun (by simp) fuel h k)
  | ok _ h₁ =>
    rw [place_of_collected hdue] at herror
    split at herror
    · cases herror
    · cases hbase : h₁.memory.admit? (h₁.kind n).size with
      | none =>
        rw [hbase] at herror
        cases herror
        exact ⟨rfl, rfl, hbase⟩
      | some base =>
        rw [hbase] at herror
        exact absurd herror (avoids_install n base h₁ k)

/-- An allocation that fails for want of memory comes to nothing. -/
theorem comesToNothing_of_allocate {b : Nat} (hkeeps : run.Keeps law w.torn w.scarred)
    (hrun : ∀ program, Avoids (.outOfMemory b) (run program)) (hready : w.Ready)
    (inv : Invariant law (w.holding p.allEdges) h)
    (herror : allocate run fuel kind p h = .error (.outOfMemory b) h') :
    ComesToNothing law run fuel kind p b h h' := by
  unfold allocate at herror
  obtain hreserve | ⟨_, _, hreserve, herror⟩ := bind_eq_error.1 herror
  · cases hreserve
  cases hreserve
  obtain herror | ⟨_, _, -, hreturn⟩ := bind_eq_error.1 herror
  swap
  · cases hreturn
  obtain ⟨h₁, hplace, hdrop⟩ := (avoids_dropPayload rfl hrun _).of_onFailure rfl herror
  obtain ⟨hdue, hb, hadmit⟩ := refused_of_place hrun hplace
  -- Whatever is run, the kind and the payload of the node are known.
  have inv₁ : Invariant law (w.planning h.nodes.size kind p) h₁ :=
    (collectIfDue_spec (w := w.planning h.nodes.size kind p) hkeeps fuel
      (hready.toOpen.planning ..) (inv.build_planning kind)).of_ok hdue
  have hplan := w.plans_planning h.nodes.size kind p
  obtain ⟨-, hknown⟩ := inv₁.planned _ kind p hplan
  obtain ⟨hkind, hpayload⟩ := hknown List.mem_cons_self
  have hstarted : h.nodes.size ∉ w.started := fun hs => Nat.lt_irrefl _ (inv.started _ hs).1
  obtain ⟨k, l, hdisposes⟩ := disposes_of_dropPayload (w := w.planning h.nodes.size kind p) hkeeps
    (hready.planning ..) inv₁ List.mem_cons_self hstarted hplan hdrop
  rw [hkind] at hb hadmit
  exact ⟨hb, h₁, k, l, ⟨.build inv kind p, hdue, ⟨hkind, hpayload⟩,
    (inv₁.building _ List.mem_cons_self).1, hadmit⟩, hdisposes⟩

end Collector

namespace Mutator

/-! ## The mutator's allocations -/

/-- Counting the edges of a payload adds and takes nothing. -/
theorem sameHoldings_of_countEdge {holder : Kind} {ns : List NodeId}
    (hok : ns.forM (countEdge holder) h = .ok ⟨⟩ k) : h.SameHoldings k :=
  .of_restamped ((forM_countEdge_tallied holder ns).of_ok hok).toRestamped

/-- An allocation with edges that have been counted comes to nothing if it fails for want of
memory. -/
theorem comesToNothing_of_counted {b : Nat} (hkeeps : run.Keeps law w.torn w.scarred)
    (hrun : ∀ program, Avoids (.outOfMemory b) (run program)) (hready : w.Ready)
    (inv : Invariant law w h) (hreferable : ∀ n ∈ p.allEdges, h.Referable w n)
    (hcount : p.allEdges.forM (countEdge kind) h = .ok ⟨⟩ k)
    (herror : Collector.allocate run fuel kind p k = .error (.outOfMemory b) h') :
    ComesToNothing law run fuel kind p b k h' := by
  have hcounted : Returns (p.allEdges.forM (countEdge kind)) h fun _ =>
      Invariant law (w.holding p.allEdges) := forM_countEdge_spec inv hreferable
  exact Collector.comesToNothing_of_allocate hkeeps hrun hready (hcounted.of_ok hcount) herror

/-- So does one of the mutator's. -/
theorem comesToNothing_of_allocate {form : AllocForm} {kids : List NodeId} {hook : Option Program}
    {b : Nat} (hkeeps : run.Keeps law w.torn w.scarred)
    (hrun : ∀ program, Avoids (.outOfMemory b) (run program)) (hready : w.Ready)
    (inv : Invariant law w h)
    (herror : allocate run fuel form kind kids hook h = .error (.outOfMemory b) h') :
    ∃ h₀, kids.forM (countEdge kind) h = .ok ⟨⟩ h₀ ∧
      ComesToNothing law run fuel kind (payloadFor kind kids hook) b h₀ h' := by
  unfold allocate at herror
  obtain hform | ⟨_, h₁, hform, herror⟩ := bind_eq_error.1 herror
  · exact absurd hform (avoids_requireForm rfl form h h')
  have hsame : h₁ = h :=
    (requireForm_spec (Q := fun _ h' => h' = h) hready inv fun _ => rfl).of_ok hform
  rw [hsame] at herror
  obtain hkids | ⟨_, h₂, hkids, herror⟩ := bind_eq_error.1 herror
  · exact absurd hkids (avoids_requireKids rfl kind kids h h')
  obtain ⟨hsame, hreferable⟩ := (requireKids_spec (Q := fun _ h' => h' = h ∧
    ∀ n ∈ kids, h.Referable w n) hready inv fun hkids => ⟨rfl, hkids⟩).of_ok hkids
  rw [hsame] at herror
  split at herror
  · obtain hrefuse | ⟨_, _, hrefuse, -⟩ := bind_eq_error.1 herror
    · cases hrefuse
    · cases hrefuse
  obtain hcount | ⟨_, h₀, hcount, herror⟩ := bind_eq_error.1 herror
  · have hcounted : Returns (kids.forM (countEdge kind)) h fun _ =>
        Invariant law (w.holding kids) := forM_countEdge_spec inv hreferable
    exact (hcounted.of_error hcount).elim
  obtain hnode | ⟨n, _, -, herror⟩ := bind_eq_error.1 herror
  · refine ⟨h₀, hcount, comesToNothing_of_counted hkeeps hrun hready inv ?_ ?_ hnode⟩
    · rwa [allEdges_payloadFor]
    · rwa [allEdges_payloadFor]
  obtain hkeep | ⟨_, _, -, hreturn⟩ := bind_eq_error.1 herror
  · exact absurd hkeep (avoids_keepAs rfl n form _ _)
  · cases hreturn

end Mutator

end HybridHeap
