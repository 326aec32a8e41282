import HybridHeap.Mutator.WeakReferences
import HybridHeap.Proofs.Allocating

/-!
# Handles keep the invariant

Taking a reference counts it and leaves it in flight, or as an explicit root without a name; keeping
it under a name puts it into the heap, and dropping a handle goes the same way back. The updates of
the heap on the way are lemmas about the invariant, and each operation of the mutator on handles,
roots and weak references is run by them.
-/

namespace HybridHeap

open Collector Act

variable {law : Law} {w : Juncture} {h : Heap} {n : NodeId}

/-- The juncture with what a handle holds in hand. -/
def Juncture.taking (w : Juncture) (x : Handle) : Juncture :=
  { w.holding x.edges with
    rooted := x.root?.toList ++ w.rooted, referring := x.weakSlot?.toList ++ w.referring }

/-- A node that can be referred to: it has storage and is not being reclaimed. -/
structure Heap.Referable (h : Heap) (w : Juncture) (n : NodeId) : Prop where
  allocated : h.isAllocated n = true
  spared : w.doomed ≠ some n

/-- What is referred to can be referred to again. -/
theorem Invariant.referable_of_debts_pos (inv : Invariant law w h) (hn : 0 < h.debts w n) :
    h.Referable w n := by
  refine ⟨inv.grounded n hn, fun hd => ?_⟩
  rw [inv.debts_eq_zero_of_doomed hd] at hn
  omega

/-- What a root without a count designates can be referred to. -/
theorem Invariant.referable_of_mem_uncounted (inv : Invariant law w h)
    (hn : n ∈ h.uncounted law) : h.Referable w n := by
  refine ⟨inv.stacked n hn, fun hd => ?_⟩
  cases hw : w.guard with
  | none => simp [Juncture.doomed, hw] at hd
  | some g =>
    cases g with
    | plain => simp [Juncture.doomed, hw] at hd
    | full => simp [Juncture.doomed, hw] at hd
    | lite pins doomed =>
      -- The node is pinned, so its count is not zero.
      have hmem := inv.sheltered pins doomed hw n hn
      have hzero := inv.debts_eq_zero_of_doomed hd
      have hpos : 0 < w.pins.count n := by
        unfold Juncture.pins
        rw [hw]
        exact List.count_pos_iff.2 hmem
      unfold Heap.debts at hzero
      omega

/-- A node on a list can be referred to. -/
theorem Invariant.referable_of_mem_toList (inv : Invariant law w h) {l : ListId}
    (hn : n ∈ h.rings.toList l) : h.Referable w n :=
  ⟨inv.listed l n hn, fun hd => (inv.doomed n hd).unlisted l hn⟩

/-- A node that has storage and whose destructor is not running can be referred to. -/
theorem Invariant.referable (inv : Invariant law w h) (hready : w.Ready)
    (hn : (h.isAllocated n && !h.dying.contains n) = true) : h.Referable w n := by
  obtain ⟨ha, hdying⟩ := Bool.and_eq_true_iff.1 hn
  refine ⟨ha, fun hd => ?_⟩
  have hmem : n ∈ w.dying := by
    cases hw : w.guard with
    | none => simp [Juncture.doomed, hw] at hd
    | some g =>
      cases g with
      | plain => simp [Juncture.doomed, hw] at hd
      | full => simp [Juncture.doomed, hw] at hd
      | lite pins doomed =>
        refine (hready.dying pins doomed hw).2 n ?_
        unfold Juncture.doomed at hd
        rwa [hw] at hd
  rw [inv.dying] at hdying
  simp [hmem] at hdying

/-- Outside destructors no lite sweep is under way. -/
theorem Invariant.guard_ne_lite (inv : Invariant law w h) (hready : w.Ready)
    (hd : h.dying.isEmpty = true) (pins : List NodeId) (doomed : Option NodeId) :
    w.guard ≠ some (.lite pins doomed) := fun hw => by
  rw [inv.dying, List.isEmpty_iff] at hd
  exact (hready.dying pins doomed hw).1 hd

/-- What matters of the references in flight is how many there are to each node. -/
theorem Invariant.holding_perm {ns ms : List NodeId} (inv : Invariant law (w.holding ns) h)
    (hp : ns.Perm ms) : Invariant law (w.holding ms) h := by
  have hdebts : ∀ n, h.debts (w.holding ms) n = h.debts (w.holding ns) n := fun n => by
    rw [Heap.debts_holding_append, Heap.debts_holding_append, hp.count_eq]
  exact
    { inv with
      covered := fun n => by
        rw [hdebts]
        exact inv.covered n
      grounded := fun n => by
        rw [hdebts]
        exact inv.grounded n }

/-! ## Keeping and releasing -/

namespace Heap

/-- What is held under other names. -/
def without (h : Heap) (name : HandleName) : List (HandleName × Handle) :=
  h.handles.eraseP fun (other, _) => other == name

/-- What is held under a name is one of the things held. -/
theorem perm_handles {name : HandleName} {x : Handle} (hx : h.handles.lookup name = some x) :
    h.handles.Perm ((name, x) :: h.without name) := by
  obtain ⟨l₁, l₂, hl, hne⟩ := List.lookup_eq_some_iff.1 hx
  have hwithout : h.without name = l₁ ++ l₂ := by
    unfold without
    rw [hl, List.eraseP_append_right]
    · simp
    · intro p hp
      have hp := bne_iff_ne.1 (hne p hp)
      simpa using Ne.symm hp
  rw [hwithout, hl]
  exact List.perm_middle

/-- What is held under a name is among the references that are counted. -/
theorem debts_pos_of_handle {name : HandleName} {x : Handle}
    (hx : h.handles.lookup name = some x) (hn : n ∈ x.edges) (w : Juncture) :
    0 < h.debts w n := by
  have hpos := handleHolders_pos ((perm_handles hx).mem_iff.2 List.mem_cons_self) hn
  unfold debts holders
  omega

/-- The node of an explicit root is among the references that are counted. -/
theorem debts_pos_of_root {slot : Nat} (hn : h.roots.explicit.get? slot = some n) (w : Juncture) :
    0 < h.debts w n := by
  have hpos : 0 < h.rootHolders n :=
    List.count_pos_iff.2 (SlotTable.mem_toList.2 ⟨slot, hn⟩)
  unfold debts holders
  omega

end Heap

/-- It makes no difference whether what is found of a handle is in hand or under a name. -/
theorem perm_tokens_cons {α : Type} (f : Handle → Option α) (name : HandleName) (x : Handle)
    (inHand : List α) (handles : List (HandleName × Handle)) :
    (inHand ++ ((name, x) :: handles).filterMap fun y => f y.2).Perm
      (((f x).toList ++ inHand) ++ handles.filterMap fun y => f y.2) := by
  cases hx : f x with
  | none => simp [hx]
  | some token =>
    simp only [List.filterMap_cons, hx]
    exact List.perm_middle

/-- It makes no difference whether what is found of a handle is under a name or has been lost. -/
theorem perm_tokens_lost {α : Type} (f : Handle → Option α) {name : HandleName} {x : Handle}
    {handles others : List (HandleName × Handle)} (hperm : handles.Perm ((name, x) :: others))
    (inHand : List α) (lost : List Handle) :
    ((inHand ++ others.filterMap fun y => f y.2) ++ (x :: lost).filterMap f).Perm
      ((inHand ++ handles.filterMap fun y => f y.2) ++ lost.filterMap f) := by
  rw [List.append_assoc, List.append_assoc]
  refine List.Perm.append_left inHand (List.Perm.trans ?_
    ((hperm.filterMap fun y => f y.2).symm.append_right _))
  cases hx : f x with
  | none => simp [hx]
  | some token =>
    simp only [List.filterMap_cons, hx]
    exact List.perm_middle

/-- What is in hand may go into the heap under a name, and back: it is all the same to the
invariant, but for guards. -/
theorem Invariant.rename {v : Juncture} {handles : List (HandleName × Handle)} {inhibitors : Nat}
    (inv : Invariant law w h)
    (hv : v = { w with flight := v.flight, rooted := v.rooted, referring := v.referring })
    (hedges : ∀ m, (handles.map fun x => x.2.edges.count m).sum + v.flight.count m =
      h.handleHolders m + w.flight.count m)
    (htokens : (v.rooted ++ handles.filterMap fun x => x.2.root?).Perm (h.rootTokens w))
    (hweakTokens : (v.referring ++ handles.filterMap fun x => x.2.weakSlot?).Perm (h.weakTokens w))
    (hguards : inhibitors + (h.handles.map fun x => x.2.guards).sum =
      h.inhibitors + (handles.map fun x => x.2.guards).sum) :
    Invariant law v { h with handles, inhibitors } := by
  rw [hv]
  have hdebts : ∀ m, Heap.debts { h with handles, inhibitors }
      { w with flight := v.flight, rooted := v.rooted, referring := v.referring } m =
      h.debts w m := by
    intro m
    have hm := hedges m
    show h.payloadHolders m + (handles.map fun x => x.2.edges.count m).sum + h.rootHolders m +
      h.weakHolders m + h.lostHolders m + w.pins.count m + v.flight.count m =
      h.payloadHolders m + h.handleHolders m + h.rootHolders m + h.weakHolders m +
        h.lostHolders m + w.pins.count m + w.flight.count m
    omega
  exact
    { inv with
      covered := fun m => by
        rw [hdebts]
        exact inv.covered m
      grounded := fun m => by
        rw [hdebts]
        exact inv.grounded m
      explicit := inv.explicit.perm ((htokens.append_right _).map Prod.swap)
      weak := inv.weak.perm (hweakTokens.append_right _)
      inhibitors := by
        have hold : h.inhibitors = (h.handles.map fun x => x.2.guards).sum +
          (h.lost.map fun x => x.2 * x.1.guards).sum + w.guards := inv.inhibitors
        show inhibitors = (handles.map fun x => x.2.guards).sum +
          (h.lost.map fun x => x.2 * x.1.guards).sum + w.guards
        omega }

/-- Keeping what is in hand under a name puts it into the heap. A guard holds off collections from
then on. -/
theorem Invariant.keep {x : Handle} (inv : Invariant law (w.taking x) h) (name : HandleName) :
    Invariant law w
      { h with handles := (name, x) :: h.handles, inhibitors := h.inhibitors + x.guards } := by
  refine inv.rename rfl (fun m => ?_) (perm_tokens_cons Handle.root? name x _ _)
    (perm_tokens_cons Handle.weakSlot? name x _ _) ?_
  · show _ = h.handleHolders m + (x.edges ++ w.flight).count m
    simp only [List.map_cons, List.sum_cons, List.count_append]
    unfold Heap.handleHolders
    omega
  · simp only [List.map_cons, List.sum_cons]
    omega

/-- Releasing a name leaves what was held under it in hand. A guard no longer holds off
collections. -/
theorem Invariant.release (inv : Invariant law w h) {name : HandleName} {x : Handle}
    (hx : h.handles.lookup name = some x) :
    Invariant law (w.taking x)
      { h with handles := h.without name, inhibitors := h.inhibitors - x.guards } := by
  have hperm := Heap.perm_handles hx
  refine inv.rename rfl (fun m => ?_)
    ((perm_tokens_cons Handle.root? name x _ _).symm.trans
      ((hperm.filterMap fun x => x.2.root?).symm.append_left w.rooted))
    ((perm_tokens_cons Handle.weakSlot? name x _ _).symm.trans
      ((hperm.filterMap fun x => x.2.weakSlot?).symm.append_left w.referring)) ?_
  · have hsum := (hperm.map fun x => x.2.edges.count m).sum_nat
    simp only [List.map_cons, List.sum_cons] at hsum
    show _ + (x.edges ++ w.flight).count m = h.handleHolders m + w.flight.count m
    rw [List.count_append]
    unfold Heap.handleHolders
    omega
  · have hsum := (hperm.map fun x => x.2.guards).sum_nat
    simp only [List.map_cons, List.sum_cons] at hsum
    have hinhibitors : h.inhibitors = (h.handles.map fun x => x.2.guards).sum +
      (h.lost.map fun x => x.2 * x.1.guards).sum + w.guards := inv.inhibitors
    omega

/-- Forgetting a handle loses what it holds, which nothing will release. -/
theorem Invariant.forget (inv : Invariant law w h) {name : HandleName} {x : Handle}
    (hx : h.handles.lookup name = some x) :
    Invariant law w { h with handles := h.without name, lost := (x, 1) :: h.lost } := by
  have hperm := Heap.perm_handles hx
  have hdebts : ∀ m, Heap.debts { h with handles := h.without name, lost := (x, 1) :: h.lost } w m =
      h.debts w m := by
    intro m
    have hsum := (hperm.map fun x => x.2.edges.count m).sum_nat
    simp only [List.map_cons, List.sum_cons] at hsum
    show h.payloadHolders m + ((h.without name).map fun x => x.2.edges.count m).sum +
      h.rootHolders m + h.weakHolders m +
      (((x, 1) :: h.lost).map fun x => x.2 * x.1.edges.count m).sum + w.pins.count m +
      w.flight.count m = h.payloadHolders m + (h.handles.map fun x => x.2.edges.count m).sum +
      h.rootHolders m + h.weakHolders m + h.lostHolders m + w.pins.count m + w.flight.count m
    simp only [List.map_cons, List.sum_cons, Nat.one_mul]
    unfold Heap.lostHolders
    omega
  exact
    { inv with
      covered := fun m => by
        rw [hdebts]
        exact inv.covered m
      grounded := fun m => by
        rw [hdebts]
        exact inv.grounded m
      explicit := inv.explicit.perm
        ((perm_tokens_lost Handle.root? hperm w.rooted h.lostHandles).map Prod.swap)
      weak := inv.weak.perm (perm_tokens_lost Handle.weakSlot? hperm w.referring h.lostHandles)
      inhibitors := by
        have hold : h.inhibitors = (h.handles.map fun x => x.2.guards).sum +
          (h.lost.map fun x => x.2 * x.1.guards).sum + w.guards := inv.inhibitors
        have hsum := (hperm.map fun x => x.2.guards).sum_nat
        simp only [List.map_cons, List.sum_cons] at hsum
        show h.inhibitors = ((h.without name).map fun x => x.2.guards).sum +
          (((x, 1) :: h.lost).map fun x => x.2 * x.1.guards).sum + w.guards
        simp only [List.map_cons, List.sum_cons, Nat.one_mul]
        omega }

/-! ## Explicit roots -/

/-- A new explicit root on a node takes a reference out of flight, and is under no name yet. -/
theorem Invariant.insertRoot (inv : Invariant law (w.holding [n]) h) :
    Invariant law { w with rooted := (n, h.roots.explicit.nextSlot) :: w.rooted }
      (h.modifyRoots fun r => { r with explicit := r.explicit.insert n }) := by
  have hdebts : ∀ m, Heap.debts (h.modifyRoots fun r => { r with explicit := r.explicit.insert n })
      { w with rooted := (n, h.roots.explicit.nextSlot) :: w.rooted } m =
      h.debts (w.holding [n]) m := by
    intro m
    have hperm := (inv.explicit.toList_insert n).count_eq m
    rw [Heap.debts_holding_append]
    show h.payloadHolders m + h.handleHolders m + (h.roots.explicit.insert n).toList.count m +
      h.weakHolders m + h.lostHolders m + w.pins.count m + w.flight.count m =
      h.payloadHolders m + h.handleHolders m + h.roots.explicit.toList.count m +
      h.weakHolders m + h.lostHolders m + w.pins.count m + w.flight.count m + [n].count m
    rw [hperm, List.count_cons, List.count_singleton]
    omega
  exact
    { inv with
      covered := fun m => by
        rw [hdebts]
        exact inv.covered m
      grounded := fun m => by
        rw [hdebts]
        exact inv.grounded m
      explicit := inv.explicit.insert n }

/-- An explicit root that goes leaves a reference in flight. -/
theorem Invariant.eraseRoot {slot : Nat}
    (inv : Invariant law { w with rooted := (n, slot) :: w.rooted } h) :
    Invariant law (w.holding [n])
      (h.modifyRoots fun r => { r with explicit := r.explicit.erase slot }) := by
  have hget : h.roots.explicit.get? slot = some n := inv.tokens n slot List.mem_cons_self
  have hdebts : ∀ m, Heap.debts
      (h.modifyRoots fun r => { r with explicit := r.explicit.erase slot }) (w.holding [n]) m =
      h.debts { w with rooted := (n, slot) :: w.rooted } m := by
    intro m
    have hperm := (SlotTable.toList_erase hget).count_eq m
    rw [List.count_cons] at hperm
    rw [Heap.debts_holding_append, List.count_singleton]
    show h.payloadHolders m + h.handleHolders m + (h.roots.explicit.erase slot).toList.count m +
      h.weakHolders m + h.lostHolders m + w.pins.count m + w.flight.count m + _ =
      h.payloadHolders m + h.handleHolders m + h.roots.explicit.toList.count m +
      h.weakHolders m + h.lostHolders m + w.pins.count m + w.flight.count m
    omega
  exact
    { inv with
      covered := fun m => by
        rw [hdebts]
        exact inv.covered m
      grounded := fun m => by
        rw [hdebts]
        exact inv.grounded m
      explicit := inv.explicit.erase }

/-! ## Roots without a count -/

/-- Roots without a count may change if what they designate then was designated before, or has
storage and no lite sweep is under way. -/
theorem Invariant.redesignate {r : Roots} {sources : Array RootSource} (inv : Invariant law w h)
    (hr : r = { h.roots with
      stack := r.stack, protect := r.protect, nodeStack := r.nodeStack, external := r.external })
    (hpins : law.pinning = true → ∀ s, some s ∈ r.external →
      ∃ source, sources[s]? = some source ∧ source.pins = true)
    (hnodes : ∀ n ∈ Heap.uncounted { h with roots := r, sources } law, n ∈ h.uncounted law ∨
      h.isAllocated n = true ∧ ∀ pins doomed, w.guard ≠ some (.lite pins doomed)) :
    Invariant law w { h with roots := r, sources } := by
  have hweak : r.weak = h.roots.weak := by rw [hr]
  have hexplicit : r.explicit = h.roots.explicit := by rw [hr]
  have hdebts : ∀ m, Heap.debts { h with roots := r, sources } w m = h.debts w m := by
    intro m
    show h.payloadHolders m + h.handleHolders m + r.explicit.toList.count m +
      (r.weak.toList.map fun e => e.edges.count m).sum + h.lostHolders m + w.pins.count m +
      w.flight.count m = _
    rw [hweak, hexplicit]
    rfl
  exact
    { inv with
      covered := fun m => by
        rw [hdebts]
        exact inv.covered m
      grounded := fun m => by
        rw [hdebts]
        exact inv.grounded m
      stacked := fun m hm => (hnodes m hm).elim (inv.stacked m) fun hm => hm.1
      pins := hpins
      sheltered := fun pins doomed hw m hm =>
        (hnodes m hm).elim (inv.sheltered pins doomed hw m) fun hm => absurd hw (hm.2 pins doomed)
      weakKeys := fun e he => inv.weakKeys e (hweak ▸ he)
      hollow := fun e he => inv.hollow e (hweak ▸ he)
      explicit := by
        show r.explicit.OwnedBy _
        rw [hexplicit]
        exact inv.explicit
      weak := by
        show r.weak.OccupiedBy _
        rw [hweak]
        exact inv.weak
      doomed := fun m hm =>
        have hold := inv.doomed m hm
        ⟨hold.allocated, hold.count, hold.unqueued, hold.unlisted,
          fun e he => hold.unkeyed e (hweak ▸ he)⟩
      ledger := by
        show w.Intact → Ledger r.weak h.pending h.chronicle w.parting
        rw [hweak]
        exact inv.ledger
      current := by
        show w.Intact → Current h.stage h.isDetached r.weak h.chronicle.making? w.loose w.kept
        rw [hweak]
        exact inv.current }

/-- A node that can be put on a stack of roots: it has storage, and no lite sweep is under way. -/
structure Heap.Stackable (h : Heap) (w : Juncture) (n : NodeId) : Prop where
  allocated : h.isAllocated n = true
  unpinned : ∀ pins doomed, w.guard ≠ some (.lite pins doomed)

/-- The stacks of roots may change if all that is put on them can be. -/
theorem Invariant.restack (inv : Invariant law w h) {stack protect nodeStack : Array NodeId}
    (hs : ∀ n ∈ stack, n ∈ h.roots.stack ∨ h.Stackable w n)
    (hp : ∀ n ∈ protect, n ∈ h.roots.protect ∨ h.Stackable w n)
    (hn : ∀ n ∈ nodeStack, n ∈ h.roots.nodeStack ∨ h.Stackable w n) :
    Invariant law w (h.modifyRoots fun r => { r with stack, protect, nodeStack }) := by
  have hall : ∀ n ∈ stack.toList ++ protect.toList ++ nodeStack.toList,
      n ∈ h.stackedRoots ∨ h.Stackable w n := by
    intro n hmem
    unfold Heap.stackedRoots
    simp only [List.mem_append, Array.mem_toList_iff] at hmem ⊢
    obtain (hmem | hmem) | hmem := hmem
    · exact (hs n hmem).imp_left fun hmem => .inl (.inl hmem)
    · exact (hp n hmem).imp_left fun hmem => .inl (.inr hmem)
    · exact (hn n hmem).imp_left .inr
  refine inv.redesignate (r := { h.roots with stack, protect, nodeStack }) rfl inv.pins
    fun n hmem => ?_
  obtain hmem | hmem := List.mem_append.1 hmem
  · exact (hall n hmem).imp (List.mem_append_left _) fun hst => ⟨hst.allocated, hst.unpinned⟩
  · exact .inl (List.mem_append_right _ hmem)

/-! ## Weak references -/

/-- Flagging a node as the key of a weak reference keeps the invariant. -/
theorem Invariant.setWeakKey (inv : Invariant law w h) (hn : h.isAllocated n = true) :
    Invariant law w (h.setStatus n ((h.status n).insert .weakKey)) := by
  have hflag : ∀ m f, f ≠ .weakKey →
      ((h.setStatus n ((h.status n).insert .weakKey)).status m).contains f =
      (h.status m).contains f := by
    intro m f hf
    rw [Heap.status_setStatus (Heap.lt_size_of_isAllocated hn)]
    split_ifs with hmn
    · simp [hmn, Ne.symm hf]
    · rfl
  have hdetached : ∀ m, (h.setStatus n ((h.status n).insert .weakKey)).isDetached m =
      h.isDetached m := fun m => hflag m .detached (by decide)
  refine inv.reflag hn (Status.count_insert _ _) (by simp) w.loose w.dropping (fun m hm ha hd => ?_)
    (fun hs m hm => ?_) (fun hs hw m hm => ?_) (fun _ => by simp) (fun _ hm => hm)
    (fun m hm ha => ?_) (fun m hm => ?_) (fun m _ => hdetached m) (fun e he key hkey => ?_) ?_
    fun _ hm => hm
  · rw [hdetached] at hd
    exact inv.attached m hm ha hd
  · rw [hflag m .mark (by decide)]
    exact inv.marked hs m hm
  · rw [hflag m .mark (by decide)]
    exact (inv.settled hs hw).2 m hm
  · rw [hdetached]
    exact inv.emptied m hm ha
  · rw [hdetached]
    exact inv.dropping m hm
  · rw [Heap.status_setStatus (Heap.lt_size_of_isAllocated hn)]
    split_ifs
    · simp
    · exact (inv.weakKeys e he key hkey).2
  · rw [funext hdetached]
    exact inv.current

/-- The entry of a weak reference that is made now, and how it is made. -/
structure Heap.Makes (h : Heap) (e : WeakEntry) (m : Making) : Prop where
  key : e.key = some m.key
  detached : m.detached = h.isDetached m.key
  phase : m.phase = h.phase
  finalizer : m.finalizer = e.number?
  /-- Finalizers are numbered as they are given. -/
  number : ∀ i, e.number? = some i → i = h.chronicle.given

/-- A new weak entry takes its value out of flight, and its weak reference is under no name yet. -/
theorem Invariant.insertWeak {e : WeakEntry} {m : Making}
    (inv : Invariant law (w.holding e.value.toList) h) (hready : w.Ready) (hmakes : h.Makes e m)
    (hkey : h.Referable w m.key) (hflag : (h.status m.key).contains .weakKey = true) :
    Invariant law { w with referring := h.roots.weak.nextSlot :: w.referring }
      ((h.modifyChronicle (·.make h.roots.weak.nextSlot m)).modifyRoots fun r =>
        { r with weak := r.weak.insert e }) := by
  have hperm := inv.weak.toList_insert e
  have hmem : ∀ e' ∈ (h.roots.weak.insert e).toList, e' = e ∨ e' ∈ h.roots.weak.toList :=
    fun e' he => List.mem_cons.1 (hperm.mem_iff.1 he)
  have hdebts : ∀ n, Heap.debts ((h.modifyChronicle (·.make h.roots.weak.nextSlot m)).modifyRoots
      fun r => { r with weak := r.weak.insert e })
      { w with referring := h.roots.weak.nextSlot :: w.referring } n =
      h.debts (w.holding e.value.toList) n := by
    intro n
    have hsum := (hperm.map fun e => e.edges.count n).sum_nat
    simp only [List.map_cons, List.sum_cons] at hsum
    rw [Heap.debts_holding_append]
    show h.payloadHolders n + h.handleHolders n + h.rootHolders n +
      ((h.roots.weak.insert e).toList.map fun e => e.edges.count n).sum + h.lostHolders n +
      w.pins.count n + w.flight.count n =
      h.payloadHolders n + h.handleHolders n + h.rootHolders n +
      (h.roots.weak.toList.map fun e => e.edges.count n).sum + h.lostHolders n + w.pins.count n +
      w.flight.count n + e.value.toList.count n
    have hedges : e.edges = e.value.toList := rfl
    rw [hsum, hedges]
    omega
  -- The new entry is the one thing to check; what is said of the old ones stands.
  exact
    { inv with
      covered := fun n => by
        rw [hdebts]
        exact inv.covered n
      grounded := fun n => by
        rw [hdebts]
        exact inv.grounded n
      weakKeys := fun e' he k hk => by
        obtain rfl | he := hmem e' he
        · rw [hmakes.key] at hk
          cases hk
          exact ⟨hkey.allocated, hflag⟩
        · exact inv.weakKeys e' he k hk
      hollow := fun e' he hk => by
        obtain rfl | he := hmem e' he
        · rw [hmakes.key] at hk
          cases hk
        · exact inv.hollow e' he hk
      weak := inv.weak.insert e
      doomed := fun n hn =>
        have hold := inv.doomed n hn
        ⟨hold.allocated, hold.count, hold.unqueued, hold.unlisted, fun e' he => by
          obtain rfl | he := hmem e' he
          · exact fun hk => hkey.spared (hn.trans (hk.symm.trans hmakes.key))
          · exact hold.unkeyed e' he⟩
      ledger := fun hw =>
        (inv.ledger hw).insert inv.weak.toSound hmakes.key hmakes.finalizer hmakes.number
      deaths := fun hw => (inv.deaths hw).insert (inv.ledger hw) fun i hi =>
        hmakes.number i (hmakes.finalizer ▸ hi)
      current := fun hw =>
        (inv.current hw).insert inv.weak.toSound hmakes.key (Heap.isAllocated_iff.1 hkey.allocated)
          hmakes.detached fun hkept =>
            hmakes.phase.trans ((inv.phase hw.1).trans (hready.sweeping hkept)) }

/-- A weak entry that goes leaves its value in flight. Its finalizer goes with it. -/
theorem Invariant.eraseWeak {slot : Nat}
    (inv : Invariant law { w with referring := slot :: w.referring } h) :
    Invariant law (w.holding ((h.roots.weak.get? slot).bind WeakEntry.value).toList)
      ((h.modifyChronicle (·.discard ((h.roots.weak.get? slot).bind WeakEntry.number?))).modifyRoots
        fun r => { r with weak := r.weak.erase slot }) := by
  have hmem : ∀ e ∈ (h.roots.weak.erase slot).toList, e ∈ h.roots.weak.toList := fun e he =>
    SlotTable.mem_of_mem_toList_erase he
  have hdebts : ∀ m, Heap.debts
      ((h.modifyChronicle (·.discard ((h.roots.weak.get? slot).bind WeakEntry.number?))).modifyRoots
        fun r => { r with weak := r.weak.erase slot })
      (w.holding ((h.roots.weak.get? slot).bind WeakEntry.value).toList) m =
      h.debts { w with referring := slot :: w.referring } m := by
    intro m
    rw [Heap.debts_holding_append]
    show h.payloadHolders m + h.handleHolders m + h.rootHolders m +
      ((h.roots.weak.erase slot).toList.map fun e => e.edges.count m).sum + h.lostHolders m +
      w.pins.count m + w.flight.count m + _ = h.payloadHolders m + h.handleHolders m +
      h.rootHolders m + (h.roots.weak.toList.map fun e => e.edges.count m).sum +
      h.lostHolders m + w.pins.count m + w.flight.count m
    cases hslot : h.roots.weak.get? slot with
    | none =>
      rw [SlotTable.erase_of_get?_eq_none hslot]
      rfl
    | some e =>
      have hsum := ((SlotTable.toList_erase hslot).map fun e => e.edges.count m).sum_nat
      simp only [List.map_cons, List.sum_cons] at hsum
      rw [hsum, Option.bind_some]
      unfold WeakEntry.edges
      omega
  exact
    { inv with
      covered := fun m => by
        rw [hdebts]
        exact inv.covered m
      grounded := fun m => by
        rw [hdebts]
        exact inv.grounded m
      weakKeys := fun e he => inv.weakKeys e (hmem e he)
      hollow := fun e he => inv.hollow e (hmem e he)
      weak := inv.weak.erase
      doomed := fun m hm =>
        have hold := inv.doomed m hm
        ⟨hold.allocated, hold.count, hold.unqueued, hold.unlisted,
          fun e he => hold.unkeyed e (hmem e he)⟩
      ledger := fun hw => (inv.ledger hw).erase slot
      current := fun hw => (inv.current hw).erase slot
      past := inv.past.discard _ }

end HybridHeap
