import HybridHeap.Proofs.Garbage

/-!
# Sweeps without destructors

What dropping a payload and reclaiming a node do to the rest of a heap when destructors do nothing
besides releasing the edges of their payloads. The operations return then, if nothing was written
around the storage of a node, and leave all other nodes as they were but for their counts.
-/

namespace HybridHeap

open Collector Act

variable {law : Law} {w : Juncture} {h h' h'' k : Heap} {n m : NodeId} {run : Runner}

/-- No payload has a destructor that does anything of its own. -/
def Heap.Quiet (h : Heap) : Prop := ∀ n p, h.payload? n = some p → p.hook.getD [] = []

/-- Whether a heap is quiet can be told from its nodes. -/
theorem Heap.quiet_iff : h.Quiet ↔
    ∀ node ∈ h.nodes, ∀ p, node.payload = some p → p.hook.getD [] = [] := by
  constructor
  · intro hquiet node hnode p hp
    obtain ⟨n, hlt, heq⟩ := Array.mem_iff_getElem.1 hnode
    refine hquiet n p ?_
    unfold payload?
    rw [Array.getElem?_eq_getElem hlt, heq]
    exact hp
  · intro hnodes n p hp
    obtain ⟨node, hnode, hp⟩ := Option.bind_eq_some_iff.1 hp
    exact hnodes node (Array.mem_of_getElem? hnode) p hp

instance (h : Heap) : Decidable h.Quiet :=
  decidable_of_iff (h.nodes.all fun node =>
    (node.payload.map fun p => (p.hook.getD []).isEmpty).getD true) <| by
      rw [Heap.quiet_iff, Array.all_eq_true_iff_forall_mem]
      refine forall₂_congr fun node _ => ?_
      cases node.payload <;> simp

/-- An empty program is run by doing nothing. -/
def Runner.Idle (run : Runner) : Prop := ∀ h, run [] h = .ok [] h

/-- The mutator runs an empty program by doing nothing. -/
theorem Mutator.runNested_idle (terms : Terms) (fuel depth : Nat) :
    Runner.Idle (runNested terms fuel (depth + 1)) := fun _ => rfl

/-- What is left of a quiet heap is quiet. -/
theorem Remains.quiet {D E : Set NodeId} (hr : Remains D E h k) (hquiet : h.Quiet) : k.Quiet := by
  intro n p hp
  by_cases hn : n ∈ D
  · rw [hr.gone n hn] at hp
    cases hp
  · rw [hr.payload n hn] at hp
    exact hquiet n p hp

/-- The payload of a node has gone. -/
theorem Remains.strip (h : Heap) (n : NodeId) : Remains {n} ∅ h (h.strip n) :=
  { Remains.refl h with
    size := Heap.size_nodes_modifyNode h n _
    payload := fun m hm => (h.payload?_strip n m).trans (if_neg hm)
    gone := fun m hm => (h.payload?_strip n m).trans (if_pos hm) }

/-- The kind of a node whose payload has gone is still known. -/
theorem Lasting.strip (h : Heap) (n : NodeId) : Lasting h (h.strip n) :=
  ⟨funext (h.kind_strip n), rfl⟩

/-- The entries keyed by a node have expired. -/
theorem Remains.expire (h : Heap) (n : NodeId) :
    Remains ∅ {n} h (h.expire fun _ e => e.key == some n) :=
  { Remains.refl h with
    roots := by
      classical
      have hkeyed : (fun (_ : Nat) (e : WeakEntry) => e.key == some n) =
          fun _ e => decide (e.KeyedIn {n}) := by
        funext _ e
        rw [Bool.eq_iff_iff, beq_iff_eq, decide_eq_true_iff]
        simp [WeakEntry.KeyedIn]
      unfold Heap.expire
      rw [hkeyed]
      unfold Heap.modifyRoots
      congr! }

/-! ## Dropping payloads -/

/-- The payload of a node has gone, and nothing else has changed but counts and queues and that the
node is detached. -/
structure Sheds (n : NodeId) (h h' : Heap) : Prop
    extends Remains {n} ∅ h h', Eased h h', Lasting h h' where
  stage : h'.stage = h.stage
  detached : ∀ m, h'.isDetached m = (h.isDetached m || decide (m = n))
  rings : h'.rings = h.rings

namespace Collector

/-- A destructor that does nothing changes nothing. -/
theorem runDestructor_quiet (hidle : run.Idle) (hquiet : h.Quiet) (n : NodeId) :
    Returns (runDestructor run n) h fun _ h' => ∃ events, h' = { h with events } := by
  unfold runDestructor
  simp only [Returns, leads_bind, leads_view]
  cases hp : h.payload? n with
  | none => exact ⟨h.events, rfl⟩
  | some p =>
    rw [Option.bind_some]
    cases hhook : p.hook with
    | none => exact ⟨h.events, rfl⟩
    | some hook =>
      have hnil : hook = [] := by
        have hprogram := hquiet n p hp
        rwa [hhook] at hprogram
      subst hnil
      simp only [leads_bind, leads_update, leads_ensuring]
      unfold Leads
      rw [hidle]
      exact ⟨_, rfl⟩

/-- Dropping the payload of a quiet node releases its edges and does nothing else. -/
theorem dropPayload_quiet (hidle : run.Idle) (hquiet : h.Quiet) (inv : Invariant law w h)
    (hparting : w.parting = []) (building dropping : List NodeId)
    (hbuilding : ∀ m, m ∈ building ↔ m ∈ w.building ∧ m ≠ n)
    (hdropping : ∀ m ∈ dropping, m ∈ w.dropping)
    (hothers : ∀ m ∉ dropping, m ≠ n → m ∉ w.dropping) (hstarted : n ∉ w.started)
    (hpayload : (h.payload? n).isSome)
    (hdetached : h.isAllocated n = true → h.isDetached n = true) :
    Returns (dropPayload run n) h fun _ h' => Invariant law { w with building, dropping } h' ∧
      ∃ events history, Lowered { h.strip n with events, history } h' := by
  have hbegun : Invariant law { w with started := n :: w.started }
      ((h.emit (.dropped n)).befall n .started) :=
    { inv.recordStart hparting hstarted hpayload with }
  unfold dropPayload
  simp only [Returns, leads_bind, leads_update, leads_onFailure, leads_ensuring]
  refine (runDestructor_quiet (h := (h.emit (.dropped n)).befall n .started) hidle hquiet
    n).leads ?_
  rintro _ h₁ ⟨events, heq⟩
  have inv₁ : Invariant law { w with started := n :: w.started } h₁ := by
    rw [heq]
    exact { hbegun with }
  have hstill : h₁.isAllocated n = true → h₁.isDetached n = true := by
    rw [heq]
    exact hdetached
  refine (releasePayload_spec (w := { w with started := n :: w.started }) inv₁ List.mem_cons_self
    building dropping hbuilding hdropping hothers hstill).leads ?_
  rintro _ h₂ ⟨inv₂, hl⟩
  have hnone : h₂.payload? n = none := by rw [hl.payload?, h₁.payload?_strip, if_pos rfl]
  rw [heq] at hl
  exact ⟨inv₂.recordEnd (w := { w with building, dropping }) hparting hstarted hnone (.inl rfl),
    events, _, hl.befall n .returned⟩

/-- Detaching a loose node of a quiet heap drops its payload. -/
theorem detach_quiet (hidle : run.Idle) (hquiet : h.Quiet)
    (inv : Invariant law { w with loose := n :: w.loose } h) (hgives : w.Gives n)
    (hn : h.isAllocated n = true) (hparting : w.parting = []) (hlost : w.Loses n)
    (hdrop : n ∉ w.dropping) (hstarted : n ∉ w.started)
    (hkeyed : (∀ e ∈ h.roots.weak.toList, e.key ≠ some n) ∨ Forsaken w.kept n) :
    Returns (detach run n (h.status n)) h fun _ h' => Invariant law w h' ∧ Sheds n h h' := by
  have hlt := Heap.lt_size_of_isAllocated hn
  have hbuilding : n ∉ w.building := inv.not_mem_building hn
  unfold detach
  -- A node detached before has lost its payload then, and nothing happens now.
  cases hd : (h.status n).contains .detached with
  | true =>
    refine ⟨inv.tighten hgives hn hd, { Remains.refl h, Eased.of_eq (h := h) (fun _ => rfl) rfl,
        Lasting.refl h with
      payload := fun m _ => rfl
      gone := fun m hm => ?_
      stage := rfl
      detached := fun m => ?_
      rings := rfl }⟩
    · rw [Set.mem_singleton_iff.1 hm]
      exact (inv.emptied n hdrop hn).1 hd
    · by_cases hm : m = n
      · subst hm
        simp [Heap.isDetached, hd]
      · simp [hm]
  | false =>
    simp only [Bool.not_false, if_true, Returns, leads_bind, leads_update]
    have hstatus := Heap.status_setStatus hlt (s := (h.status n).insert .detached)
    have hset : ∀ m, (h.setStatus n ((h.status n).insert .detached)).isDetached m =
        (h.isDetached m || decide (m = n)) := fun m => by
      unfold Heap.isDetached
      rw [hstatus]
      split_ifs with hm
      · simp [hm]
      · simp [hm]
    have hcount : ∀ m, ((h.setStatus n ((h.status n).insert .detached)).status m).count =
        (h.status m).count := fun m => by
      rw [hstatus]
      split_ifs with hm
      · rw [hm, Status.count_insert]
      · rfl
    have hsame : Remains ∅ ∅ h (h.setStatus n ((h.status n).insert .detached)) :=
      .of_restamped (h.restamped_setStatus n _ h.moribund)
    have hpayload : ((h.setStatus n ((h.status n).insert .detached)).payload? n).isSome := by
      rw [Heap.payload?_setStatus]
      exact inv.isSome_payload? hn hd
    refine (dropPayload_quiet (w := { w with dropping := n :: w.dropping }) hidle
      (hsame.quiet hquiet) (inv.setDetached hgives hlost hn hkeyed) hparting w.building w.dropping
      (fun m => ⟨fun hm => ⟨hm, ne_of_mem_of_not_mem hm hbuilding⟩, fun hm => hm.1⟩)
      (fun m => List.mem_cons_of_mem n) (fun m hm hmn => by simp [hm, hmn])
      hstarted hpayload fun _ => by simp [hset]).leads ?_
    rintro _ h' ⟨inv', events, history, hl⟩
    refine ⟨inv', ?_⟩
    have hstripped := hsame.trans
      ({ Remains.strip _ n with } : Remains {n} ∅ _
        { (h.setStatus n ((h.status n).insert .detached)).strip n with events, history })
    have hgone := hstripped.trans (.of_restamped hl.toRestamped)
    rw [Set.empty_union, Set.union_empty, Set.empty_union, Set.union_empty] at hgone
    have heased : Eased h
        { (h.setStatus n ((h.status n).insert .detached)).strip n with events, history } :=
      .of_eq (fun m => (congrArg Status.count (Heap.status_strip _ n m)).trans (hcount m)) rfl
    have hlasting : Lasting h
        { (h.setStatus n ((h.status n).insert .detached)).strip n with events, history } :=
      { (Lasting.of_restamped (h.restamped_setStatus n _ h.moribund)).trans (.strip _ n) with }
    exact
      { hgone, heased.trans hl.toEased, hlasting.trans (.of_restamped hl.toRestamped) with
        stage := by
          rw [hl.stage]
          funext m
          exact (Heap.stage_strip _ n m).trans (h.stage_setStatus n m _)
        detached := fun m => by
          rw [hl.isDetached, ← hset]
          exact congrArg (Status.contains · .detached) (Heap.status_strip _ n m)
        rings := hl.ringsEq }

end Collector

/-! ## Reclaiming nodes -/

/-- A node has been reclaimed, and nothing else has changed but counts and queues and the weak
entries keyed by it. -/
structure Reclaims (n : NodeId) (h h' : Heap) : Prop
    extends Remains {n} {n} h h', Eased h h', Lasting h h' where
  freed : h'.stage n = .freed
  stage : ∀ m, m ≠ n → h'.stage m = h.stage m
  detached : ∀ m, m ≠ n → h'.isDetached m = h.isDetached m
  rings : h'.rings = h.rings.unlink (.node n)

/-- Giving back the storage of a node leaves payloads. -/
theorem Remains.giveBack (h : Heap) (n : NodeId) : Remains ∅ ∅ h (h.giveBack n) :=
  { Remains.refl h with
    size := Heap.size_nodes_modifyNode _ n _
    payload := fun m _ => h.payload?_giveBack n m
    gone := fun _ hm => hm.elim }

/-- Nor does it change what lasts. -/
theorem Lasting.giveBack (h : Heap) (n : NodeId) : Lasting h (h.giveBack n) where
  kind := funext (h.kind_giveBack n)
  limit := by
    show ((h.memory.clearMark _).release _ _).store.limit = _
    rw [Memory.Allocator.limit_release, Memory.Allocator.limit_clearMark]

/-- A node has been reclaimed when, off its list, the entries keyed by it have expired, its payload
has been dropped and its storage has gone back. -/
theorem Sheds.reclaims {k' : Heap} (hn : n < h.nodes.size)
    (hl : Lowered ((h.modifyRings (·.unlink (.node n))).expire fun _ e => e.key == some n) k)
    (hs : Sheds n k k') (events : List Event) (history : List (NodeId × Fate)) :
    Reclaims n h { k'.giveBack n with events, history } := by
  have hunlinked : Remains ∅ ∅ h (h.modifyRings (·.unlink (.node n))) := { Remains.refl h with }
  have hexpired := (hunlinked.trans (.expire _ n)).trans (.of_restamped hl.toRestamped)
  have hgiven : Remains ∅ ∅ k' { k'.giveBack n with events, history } :=
    { Remains.giveBack k' n with }
  have hremains : Remains {n} {n} h { k'.giveBack n with events, history } := by
    have hall := (hexpired.trans hs.toRemains).trans hgiven
    simp only [Set.empty_union, Set.union_empty] at hall
    exact hall
  have hlt : n < k'.nodes.size := by
    rw [hs.size, hexpired.size]
    exact hn
  have hstages := Heap.stage_giveBack hlt
  have heased₁ : Eased h ((h.modifyRings (·.unlink (.node n))).expire fun _ e => e.key == some n) :=
    .of_eq (fun _ => rfl) rfl
  have heased₂ : Eased k' { k'.giveBack n with events, history } :=
    .of_eq (fun m => congrArg Status.count (k'.status_giveBack n m)) rfl
  have hlasting₁ : Lasting h k :=
    { Lasting.of_restamped hl.toRestamped with }
  have hlasting₂ : Lasting k' { k'.giveBack n with events, history } :=
    { Lasting.giveBack k' n with }
  exact
    { hremains, ((heased₁.trans hl.toEased).trans hs.toEased).trans heased₂,
      (hlasting₁.trans hs.toLasting).trans hlasting₂ with
      freed := (hstages n).trans (if_pos rfl)
      stage := fun m hm => by
        have hstage : k'.stage m = h.stage m := by
          rw [hs.stage, hl.stage]
          rfl
        exact ((hstages m).trans (if_neg hm)).trans hstage
      detached := fun m hm => by
        have hdetached : k'.isDetached m = h.isDetached m := by
          rw [hs.detached, decide_eq_false hm, Bool.or_false, hl.isDetached]
          rfl
        exact (congrArg (Status.contains · .detached) (k'.status_giveBack n m)).trans hdetached
      rings := by
        show k'.rings = _
        rw [hs.rings, hl.ringsEq]
        rfl }

namespace Collector

variable {pins : List NodeId} {reclaimed : Nat}

/-- Dropping the payload of a doomed node of a quiet heap and giving it back returns if nothing was
written around its storage. -/
theorem finish_quiet (hidle : run.Idle) (hquiet : h.Quiet) (htidy : law.tidy = true)
    (inv : Invariant law
      { w with guard := some (.lite pins (some n)), loose := n :: w.loose, reclaimed } h)
    (hcalm : w.Idle) :
    Returns (detach run n (h.status n)) h fun _ h₁ =>
      Returns (deallocate n) { h₁ with nodeCount := h₁.nodeCount - 1 } fun _ h' =>
        Invariant law { w with guard := some (.lite pins none), reclaimed := reclaimed + 1 } h' ∧
          Sheds n h h₁ ∧ ∃ events history, h' = { h₁.giveBack n with events, history } := by
  have hn := (inv.doomed n rfl).allocated
  have hstarted : n ∉ w.started := fun hs => inv.not_mem_building hn (hcalm.started n hs)
  refine (detach_quiet (w := { w with guard := some (.lite pins (some n)), reclaimed }) hidle hquiet
    inv (fun _ _ hw => by cases hw; rfl) hn hcalm.parting (hcalm.loses n)
    (hcalm.dropping ▸ List.not_mem_nil) hstarted
    (.inl (inv.doomed n rfl).unkeyed)).mono ?_
  rintro _ h₁ ⟨inv₁, hs⟩
  have hpayload : h₁.payload? n = none := hs.gone n rfl
  refine (deallocate_spec inv₁ hpayload hcalm).mono (fun _ h' hpost => ⟨hpost.1, hs, hpost.2⟩) ?_
  rintro _ _ ⟨hfalse, -⟩
  rw [htidy] at hfalse
  cases hfalse

/-- Reclaiming a node that was popped with a count of zero from a quiet heap returns if nothing was
written around its storage. -/
theorem destroy_quiet (hidle : run.Idle) (hquiet : h.Quiet) (htidy : law.tidy = true)
    (inv : Invariant law { w with guard := some (.lite pins none), reclaimed } h) (hcalm : w.Idle)
    (hn : h.isAllocated n = true) (h0 : (h.status n).count = 0) (hq : n ∉ h.moribund) :
    Returns (destroy run n) h fun _ h' =>
      Invariant law { w with guard := some (.lite pins none), reclaimed := reclaimed + 1 } h' ∧
        Reclaims n h h' := by
  refine destroy_rule inv hcalm hn h0 hq fun h₁ inv₁ _ hl => ?_
  have hexpired := (Remains.expire _ n).trans (.of_restamped hl.toRestamped)
  have hquiet₁ : h₁.Quiet := hexpired.quiet hquiet
  refine (finish_quiet hidle hquiet₁ htidy inv₁ hcalm).mono fun _ h₂ hfinish => ?_
  refine hfinish.mono ?_
  rintro _ h' ⟨inv', hs, events, history, heq⟩
  rw [heq] at inv' ⊢
  exact ⟨inv', hs.reclaims (Heap.lt_size_of_isAllocated hn) hl events history⟩

end Collector

end HybridHeap
