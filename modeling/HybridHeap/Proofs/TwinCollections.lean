import HybridHeap.Collector.Check
import HybridHeap.Proofs.Twins

/-!
# Collections of twins

What the collector does to twins. Handing out storage and giving it back are the operations whose
course depends on the memory underneath: the one puts the block anywhere, the other holds it back or
not. Everything else cannot tell twins apart.
-/

namespace HybridHeap

open Collector Act

variable {P : Program → Prop} {h k : Heap} {n : NodeId} {run : Runner} {fuel : Nat}

/-- What does not depend on the memory is the same for twins. -/
theorem Twins.oblivious {α : Type} (ht : Twins P h k) (f : Heap → α) (hf : Heap.Oblivious f) :
    f k = f h := by
  obtain ⟨quarantine, memory, events, rfl⟩ := ht.same
  exact hf.eq h quarantine memory events

/-! ## Storage -/

namespace Heap

/-- Handing out storage leaves the memory storage for the nodes, whether or not there is a node that
the storage is for. -/
theorem Housed.equip (hh : h.Housed) (n : NodeId) (base : Memory.Address) :
    (h.equip n base).Housed := by
  have hpush : ∀ m, h.isAllocated m = true →
      (h.equip n base).memory.Backs true (h.block m) (h.kind m).size := fun m hm =>
    ((hh.backed m hm).push _ _).setMark _
  have hnew : (h.equip n base).memory.Backs true h.memory.store.blocks.size (h.kind n).size :=
    (Memory.Allocator.backs_push hh.sound true base (h.kind n).size_pos).setMark _
  have hbytes : (h.equip n base).bytes = h.bytes + (h.kind n).size :=
    (Memory.Allocator.bytesAllocated_setMark _ _).trans
      (Memory.Allocator.bytesAllocated_push _ _ (h.kind n).size_pos)
  have hfresh : ∀ m, h.isAllocated m = true → h.block m ≠ h.memory.store.blocks.size :=
    fun m hm => Nat.ne_of_lt (hh.backed m hm).lt_size
  have hlimit : (h.equip n base).memory.store.limit = none := by
    show ((h.memory.push base _).setMark _).store.limit = none
    rw [Memory.Allocator.limit_setMark, Memory.Allocator.limit_push]
    exact hh.unlimited
  have hclean : (h.equip n base).memory.Clean := (hh.clean.push hh.sound base _).setMark _
  have hsound : (h.equip n base).memory.Sound := (hh.sound.push base _).setMark _
  have hpaid := hh.paid
  by_cases hn : n < h.nodes.size
  · refine ⟨hlimit, hclean, hsound, fun m hm => ?_, fun m l hm hl => ?_, ?_⟩
    · rw [isAllocated_equip base hn] at hm
      rw [block_equip base hn, kind_equip]
      split_ifs at hm ⊢ with hmn
      · rw [hmn]
        exact hnew
      · exact hpush m hm
    · rw [isAllocated_equip base hn] at hm hl
      rw [block_equip base hn, block_equip base hn]
      split_ifs at hm hl ⊢ with hmn hln hln
      · exact fun _ => hmn.trans hln.symm
      · exact fun heq => absurd heq.symm (hfresh l hl)
      · exact fun heq => absurd heq (hfresh m hm)
      · exact hh.apart m l hm hl
    · -- The node may have had storage before; then its bytes are owed once and paid twice.
      have hsum : (h.equip n base).storageBytes + _ = h.storageBytes + _ :=
        sum_modify (Array.getElem?_eq_getElem hn) (fun node => { node with
          status := .fresh h.cycle, block := h.memory.store.blocks.size, stage := .allocated })
          fun node => if node.stage = .allocated then node.kind.size else 0
      have hsize : (h.kind n).size = h.nodes[n].kind.size := by
        unfold kind
        rw [Array.getElem?_eq_getElem hn]
        rfl
      rw [if_pos rfl] at hsum
      rw [hbytes, hsize]
      dsimp only at hsum
      omega
  · have hnodes : (h.equip n base).nodes = h.nodes := by
      have hge : h.nodes.size ≤ n := Nat.not_lt.1 hn
      refine Array.ext_getElem? fun m => (getElem?_modifyNode h n m _).trans ?_
      split_ifs with hmn
      · rw [hmn, Array.getElem?_eq_none hge]
        rfl
      · rfl
    have halloc : (h.equip n base).isAllocated = h.isAllocated := by
      unfold isAllocated
      rw [hnodes]
    have hblock : (h.equip n base).block = h.block := by
      unfold block
      rw [hnodes]
    refine ⟨hlimit, hclean, hsound, fun m hm => ?_, ?_, ?_⟩
    · rw [halloc] at hm
      rw [hblock, kind_equip]
      exact hpush m hm
    · rw [halloc, hblock]
      exact hh.apart
    · have hsum : (h.equip n base).storageBytes = h.storageBytes := by
        unfold storageBytes
        rw [hnodes]
      omega

/-- A node that has no storage yet asks nothing of the memory. -/
theorem Housed.build (hh : h.Housed) (kind : Kind) (payload : Payload) :
    (h.build kind payload).Housed where
  unlimited := hh.unlimited
  clean := hh.clean
  sound := hh.sound
  backed := fun m hm => by
    rw [isAllocated_build] at hm
    rw [block_build, kind_build h kind payload (Nat.ne_of_lt (lt_size_of_isAllocated hm))]
    exact hh.backed m hm
  apart := by
    rw [isAllocated_build, block_build]
    exact hh.apart
  paid := by
    have hsum : (h.build kind payload).storageBytes = h.storageBytes + 0 :=
      sum_push h.nodes (.built kind payload)
        fun node => if node.stage = .allocated then node.kind.size else 0
    have hpaid := hh.paid
    show (h.build kind payload).storageBytes ≤ h.bytes
    omega

/-- The bytes of a node with storage are outstanding. -/
theorem Housed.size_le (hh : h.Housed) (hn : h.isAllocated n = true) :
    (h.kind n).size ≤ h.bytes := by
  have hsum := storageBytes_giveBack hn
  have hpaid := hh.paid
  omega

/-- Giving back storage leaves the memory storage for the other nodes. -/
theorem Housed.giveBack (hh : h.Housed) (hn : h.isAllocated n = true) : (h.giveBack n).Housed := by
  have hlt := lt_size_of_isAllocated hn
  have hback := (hh.backed n hn).clearMark (h.block n)
  refine ⟨?_, (hh.clean.clearMark _).release hback, ?_, fun m hm => ?_, fun m l hm hl => ?_, ?_⟩
  · show ((h.memory.clearMark _).release _ _).store.limit = none
    rw [Memory.Allocator.limit_release, Memory.Allocator.limit_clearMark]
    exact hh.unlimited
  · exact (hh.sound.clearMark _).release hback.lt_size _
  · rw [isAllocated_giveBack hlt] at hm
    rw [block_giveBack, kind_giveBack]
    split_ifs at hm with hmn
    have hne : h.block m ≠ h.block n := fun heq => hmn (hh.apart m n hm hn heq)
    exact ((hh.backed m hm).clearMark _).release hne _
  · rw [isAllocated_giveBack hlt] at hm hl
    rw [block_giveBack, block_giveBack]
    split_ifs at hm hl
    exact hh.apart m l hm hl
  · have hsum := storageBytes_giveBack hn
    have hpaid := hh.paid
    have hbytes : (h.giveBack n).bytes = h.bytes - (h.kind n).size :=
      hback.bytesAllocated_release.trans
        (congrArg (· - _) (Memory.Allocator.bytesAllocated_clearMark _ _))
    omega

/-- Building a node around a payload whose destructor may be run. -/
theorem Runs.build (hr : h.Runs P) (kind : Kind) {payload : Payload}
    (hhook : ∀ program, payload.hook = some program → P program) :
    (h.build kind payload).Runs P where
  hooks := fun m p program hp hprogram => by
    rw [payload?_build] at hp
    split_ifs at hp
    · cases hp
      exact hhook program hprogram
    · exact hr.hooks m p program hp hprogram
  finalizers := hr.finalizers
  pending := hr.pending

/-- Handing out storage leaves the payloads. -/
theorem Runs.equip (hr : h.Runs P) (n : NodeId) (base : Memory.Address) :
    (h.equip n base).Runs P :=
  { hr with hooks := fun m p program hp => hr.hooks m p program ((payload?_equip base m) ▸ hp) }

end Heap

namespace Twins

/-- Twins with a further node that has no storage yet are twins. -/
theorem build (ht : Twins P h k) (kind : Kind) {payload : Payload}
    (hhook : ∀ program, payload.hook = some program → P program) :
    Twins P (h.build kind payload) (k.build kind payload) := by
  obtain ⟨quarantine, memory, events, rfl⟩ := ht.same
  exact ⟨⟨quarantine, memory, events, rfl⟩, ht.bytes, ht.blocks, ht.left.build kind payload,
    ht.right.build kind payload, ht.events, ht.runs.build kind hhook⟩

/-- Wherever the memory of twins puts the storage for a node, they stay twins. -/
theorem equip (ht : Twins P h k) (n : NodeId) (base base' : Memory.Address) :
    Twins P (h.equip n base) (k.equip n base') := by
  have hbytes : ∀ (h : Heap) base, (h.equip n base).bytes = h.bytes + (h.kind n).size :=
    fun h base => (Memory.Allocator.bytesAllocated_setMark _ _).trans
      (Memory.Allocator.bytesAllocated_push _ _ (h.kind n).size_pos)
  have hsize : ∀ (h : Heap) base, (h.equip n base).memory.store.blocks.size =
      h.memory.store.blocks.size + 1 := fun h base =>
    (Memory.Allocator.size_blocks_setMark _ _).trans (Memory.Allocator.size_blocks_push _ _ _)
  have hkind : k.kind n = h.kind n :=
    ht.oblivious (fun h => h.kind n) rfl
  constructor
  · have hblocks := ht.blocks
    have hpeak : (k.memory.push base' (k.kind n).size).bytesAllocated =
        (h.memory.push base (h.kind n).size).bytesAllocated := by
      rw [Memory.Allocator.bytesAllocated_push _ _ (k.kind n).size_pos,
        Memory.Allocator.bytesAllocated_push _ _ (h.kind n).size_pos, hkind]
      exact congrArg (· + _) ht.bytes
    obtain ⟨quarantine, memory, events, rfl⟩ := ht.same
    refine ⟨quarantine, ((h.rebase quarantine memory events).equip n base').memory, events, ?_⟩
    unfold Heap.equip
    rw [hpeak, hblocks]
    rfl
  · rw [hbytes, hbytes, ht.bytes, hkind]
  · rw [hsize, hsize, ht.blocks]
  · exact ht.left.equip n base
  · exact ht.right.equip n base'
  · exact ht.events
  · exact ht.runs.equip n base

/-- Twins from which a node with storage is taken back are twins. -/
theorem giveBack (ht : Twins P h k) (hn : h.isAllocated n = true) :
    Twins P (h.giveBack n) (k.giveBack n) := by
  have hn' : k.isAllocated n = true :=
    (ht.oblivious (fun h => h.isAllocated n) rfl).trans hn
  have hkind : k.kind n = h.kind n :=
    ht.oblivious (fun h => h.kind n) rfl
  have hbytes : ∀ h : Heap, h.Housed → h.isAllocated n = true →
      (h.giveBack n).bytes = h.bytes - (h.kind n).size := fun h hh hn =>
    ((hh.backed n hn).clearMark (h.block n)).bytesAllocated_release.trans
      (congrArg (· - _) (Memory.Allocator.bytesAllocated_clearMark _ _))
  have hsize : ∀ h : Heap, (h.giveBack n).memory.store.blocks.size = h.memory.store.blocks.size :=
    fun h => (Memory.Allocator.size_blocks_release _ _ _).trans
      (Memory.Allocator.size_blocks_clearMark _ _)
  constructor
  · obtain ⟨quarantine, memory, events, rfl⟩ := ht.same
    exact ⟨quarantine, _, events, rfl⟩
  · rw [hbytes k ht.right hn', hbytes h ht.left hn, ht.bytes, hkind]
  · rw [hsize, hsize, ht.blocks]
  · exact ht.left.giveBack hn
  · exact ht.right.giveBack hn'
  · exact ht.events
  · exact { ht.runs with
      hooks := fun m p program hp => ht.runs.hooks m p program (h.payload?_giveBack n m ▸ hp) }

end Twins

namespace Collector

/-- Whatever comes of giving back a node, the chronicle tells if the node had no storage. -/
theorem deallocate_tells (hr : h.Runs P) (n : NodeId) :
    Leads (deallocate n) h
      (fun _ h' => h'.Runs P ∧ h'.chronicle = h.chronicle.giveBack (h.isAllocated n))
      fun _ h' => h'.Runs P ∧ h'.chronicle = h.chronicle.giveBack (h.isAllocated n) := by
  have hruns : (h.modifyNode n fun node => { node with stage := .freed }).Runs P :=
    Heap.Runs.modifyNode hr (f := fun node => { node with stage := .freed })
      (fun _ p hp => ⟨p, hp, rfl⟩) n
  unfold deallocate
  simp only [leads_bind, leads_view, leads_update]
  split
  · simp only [leads_bind, leads_view, leads_update]
    refine (forM_log_spec _ _ _ _).leads ?_
    rintro _ h' ⟨events, rfl⟩
    exact ⟨{ hruns with }, rfl⟩
  · exact leads_fatal.2 ⟨{ hruns with }, rfl⟩
  · exact leads_throw.2 ⟨{ hruns with }, rfl⟩
  · simp only [leads_bind, leads_update]
    exact leads_throw.2 ⟨{ hruns with }, rfl⟩
  · exact leads_update.2 ⟨{ hruns with }, rfl⟩

/-- Giving back a node that has storage succeeds in memory that nothing wrote to. -/
theorem reclaim_of_housed (hh : h.Housed) (hn : h.isAllocated n = true) :
    (do
      Act.update fun h => { h with nodeCount := h.nodeCount - 1 }
      deallocate n : Act Unit) h =
      .ok () (((h.giveBack n).emit (.freed n)).befall n .freed) := by
  have hback := (hh.backed n hn).clearMark (h.block n)
  have hbytes : (h.kind n).size ≤ (h.memory.clearMark (h.block n)).bytesAllocated := by
    rw [Memory.Allocator.bytesAllocated_clearMark]
    exact hh.size_le hn
  have hfault : (h.memory.clearMark (h.block n)).fault? (h.block n) (h.kind n).size = none :=
    (hback.fault?_cases hbytes (h.kind n).size_fits).resolve_right fun hf => by cases hf.1
  have hstrays : (h.giveBack n).memory.straySizes = [] :=
    ((hh.clean.clearMark _).release hback).straySizes
  have hreturns : Returns (do
      Act.update fun h => { h with nodeCount := h.nodeCount - 1 }
      deallocate n) h fun _ h' => h' = ((h.giveBack n).emit (.freed n)).befall n .freed := by
    have hhoused : Heap.isAllocated { h with nodeCount := h.nodeCount - 1 } n = true := hn
    unfold Returns deallocate
    simp only [leads_bind, leads_view, leads_update, Heap.modifyChronicle_giveBack hhoused]
    split
    case h_1 =>
      simp only [leads_bind, leads_view, leads_update]
      show Leads ((h.giveBack n).memory.straySizes.forM _) (h.giveBack n) _ _
      rw [hstrays]
      exact rfl
    all_goals
      rename_i hfaulty
      cases hfaulty.symm.trans hfault
  obtain ⟨_, _, heq, rfl⟩ := returns_iff.1 hreturns
  exact heq

/-- Taking a node back cannot tell twins apart, unless the node has no storage. -/
theorem blind_reclaim (n : NodeId) : Blind P (do
    Act.update fun h => { h with nodeCount := h.nodeCount - 1 }
    deallocate n) := by
  have htells : ∀ h : Heap, h.Runs P → Leads (do
      Act.update fun h => { h with nodeCount := h.nodeCount - 1 }
      deallocate n) h
      (fun _ h' => h'.Runs P ∧ h'.chronicle = h.chronicle.giveBack (h.isAllocated n))
      fun _ h' => h'.Runs P ∧ h'.chronicle = h.chronicle.giveBack (h.isAllocated n) := fun h hr =>
    deallocate_tells (h := { h with nodeCount := h.nodeCount - 1 }) { hr with } n
  have hkept : ∀ {h h' : Heap}, h'.Runs P →
      h'.chronicle = h.chronicle.giveBack (h.isAllocated n) → Kept P h h' := fun hr htold =>
    ⟨hr, htold ▸ Nat.le_add_right _ _, htold ▸ Nat.le_refl _⟩
  have hsteady : Steady P (fun a => ∃ b, a = b) (do
      Act.update fun h => { h with nodeCount := h.nodeCount - 1 }
      deallocate n) := fun h hr => (htells h hr).mono
    (fun a h' htold => ⟨⟨a, rfl⟩, hkept htold.1 htold.2⟩) fun _ h' htold => hkept htold.1 htold.2
  refine ⟨hsteady, fun k hr => (hsteady k hr).imp fun a _ hk => ⟨⟨a, rfl⟩, hk.2⟩, fun h k ht => ?_⟩
  have hsame : k.isAllocated n = h.isAllocated n :=
    ht.oblivious (fun h => h.isAllocated n) rfl
  cases hn : h.isAllocated n with
  | true =>
    rw [reclaim_of_housed ht.left hn, reclaim_of_housed ht.right (hsame.trans hn)]
    exact .ok rfl
      (((ht.giveBack hn).emit (.same _)).change (g := (·.befall n .freed)) (.of_eq rfl rfl))
  | false =>
    have hastray : ∀ {h h' : Heap}, h.isAllocated n = false →
        h'.chronicle = h.chronicle.giveBack (h.isAllocated n) → 0 < h'.chronicle.misfrees := by
      intro h h' hn htold
      rw [htold, hn]
      exact Nat.succ_pos _
    exact .astray (.inl ⟨hastray hn (htells h ht.runs).after.2,
      hastray (hsame.trans hn) (htells k ht.runs_right).after.2⟩)

/-! ## Counting and queueing -/

theorem blind_unqueue (n : NodeId) : Blind P (unqueue n) :=
  .bind (.look rfl) fun _ => .ite (.update (.of_eq rfl rfl)) (.bind (.look rfl) fun _ => .fatal _)

theorem blind_increment (n : NodeId) : Blind P (increment n) :=
  .bind (.look rfl) fun _ => .bind (.update (.setStatus rfl)) fun _ =>
    .ite (blind_unqueue n) (.pure _)

theorem blind_decrement (n : NodeId) : Blind P (decrement n) := by
  refine .bind (.look rfl) fun counted => ?_
  cases counted with
  | some _ =>
    exact .bind (.update (.setStatus rfl)) fun _ => .ite (.update (.of_eq rfl rfl)) (.pure _)
  | none => exact .bind (.look rfl) fun _ => .fatal _

theorem blind_makeMoribund (n : NodeId) : Blind P (makeMoribund n) :=
  .bind (.look rfl) fun _ =>
    .ite (.bind (.update (.setStatus rfl)) fun _ => .update (.of_eq rfl rfl)) (.pure _)

theorem blind_releaseAll (ns : List NodeId) : Blind P (releaseAll ns) := by
  induction ns with
  | nil => exact .pure _
  | cons n ns ih => exact .ensuring (blind_decrement n) ih

/-! ## Expiring weak entries -/

/-- The finalizers of entries that expire stay what they are. -/
theorem blind_settle {dead : List Expired}
    (hdead : ∀ e ∈ dead, ∀ f, e.finalizer = some f → P f.program) : Blind P (settle dead) := by
  induction dead with
  | nil => exact .pure _
  | cons e dead ih =>
    have hqueue : Discreet P fun h => { h with pending := h.pending ++ e.finalizer.toList } :=
      .of_runs rfl rfl fun h hr => { hr with
        pending := fun f hf => by
          rcases List.mem_append.1 hf with hold | hnew
          · exact hr.pending f hold
          · exact hdead e List.mem_cons_self f (Option.mem_toList.1 hnew) }
    exact .bind (.onFailure (.forM blind_decrement _) (blind_releaseAll _)) fun _ =>
      .bind (.update hqueue) fun _ => .bind (.update (.of_eq rfl rfl)) fun _ =>
        ih fun d hd => hdead d (List.mem_cons_of_mem e hd)

/-- What is left of entries that expire has their finalizers. -/
theorem mem_expired {p : Nat → WeakEntry → Bool} {t : SlotTable WeakEntry} {e : Expired}
    (he : e ∈ expired p t) : ∃ x ∈ t.toList, x.finalizer = e.finalizer := by
  obtain ⟨⟨slot, x⟩, hx, rfl⟩ := List.mem_map.1 he
  have hentry := SlotTable.mem_entries.1 (List.mem_of_mem_filter hx)
  exact ⟨x, SlotTable.mem_toList.2 ⟨slot, hentry⟩, rfl⟩

theorem blind_expireEntries (p : Nat → WeakEntry → Bool) : Blind P (expireEntries p) := by
  have hexpire : Discreet P (·.modifyRoots fun r => { r with weak := expire p r.weak }) :=
    .of_runs rfl rfl fun h hr => { hr with
      finalizers := fun e he f hf => by
        rcases mem_toList_expire he with rfl | hold
        · cases hf
        · exact hr.finalizers e hold f hf }
  refine Alike.inspect (fun dead => ∀ e ∈ dead, ∀ f, e.finalizer = some f → P f.program)
    rfl (fun h hr e he f hf => ?_) fun dead hdead => ?_
  · obtain ⟨x, hx, hfinalizer⟩ := mem_expired he
    exact hr.finalizers x hx f (hfinalizer.trans hf)
  · exact Blind.bind (.update hexpire) fun _ => blind_settle hdead

/-! ## Marking -/

/-- A relation on heaps that does not depend on their memories and is kept by changes that do not
either. -/
structure Lockstep (P : Program → Prop) (Q : Heap → Heap → Prop) : Prop where
  same : ∀ h k, Q h k → ∃ quarantine memory events, k = h.rebase quarantine memory events
  change : ∀ h k g, Discreet P g → Q h k → Q (g h) (g k)
  log : ∀ h k level text, Q h k → Q (h.log level text) (k.log level text)

namespace Marking

variable {Q : Heap → Heap → Prop} {m m' : Marking}

/-- Two markings have come equally far, in heaps that `Q` relates. -/
structure Abreast (Q : Heap → Heap → Prop) (m m' : Marking) : Prop where
  heap : Q m.heap m'.heap
  stack : m'.stack = m.stack
  count : m'.count = m.count

theorem Abreast.visit (hQ : Lockstep P Q) (hm : Abreast Q m m') (n : NodeId) :
    Abreast Q (m.visit n) (m'.visit n) := by
  obtain ⟨quarantine, memory, events, hsame⟩ := hQ.same _ _ hm.heap
  have hmarked : m'.isMarked n = m.isMarked n := by
    unfold isMarked Heap.readsMarked
    rw [hsame]
    rfl
  unfold Marking.visit
  rw [hmarked]
  split_ifs
  · exact hm
  · have hrings : Discreet P (·.modifyRings (·.pushBack reachableList n)) :=
      .of_eq rfl rfl
    have hstatus : Discreet P fun h => h.setStatus n ((h.status n).setMark h.cycle) :=
      .setStatus rfl
    exact ⟨hQ.change _ _ _ (hstatus.comp hrings) hm.heap, congrArg (n :: ·) hm.stack,
      congrArg (· + 1) hm.count⟩

/-- Where each of several moves keeps two markings abreast, all of them do. -/
theorem Abreast.foldl {α : Type} {move : Marking → α → Marking}
    (hmove : ∀ m m' a, Abreast Q m m' → Abreast Q (move m a) (move m' a)) (hm : Abreast Q m m')
    (as : List α) : Abreast Q (as.foldl move m) (as.foldl move m') := by
  induction as generalizing m m' with
  | nil => exact hm
  | cons a as ih => exact ih (hmove m m' a hm)

theorem Abreast.step (hQ : Lockstep P Q) (hm : Abreast Q m m') : Abreast Q m.step m'.step := by
  unfold Marking.step
  rw [hm.stack]
  cases hstack : m.stack with
  | nil => exact hm
  | cons n rest =>
    obtain ⟨quarantine, memory, events, hsame⟩ := hQ.same _ _ hm.heap
    have htraced : traced m'.heap n = traced m.heap n := by
      rw [hsame]
      rfl
    have hlog : Q (logTrace m.heap (traced m.heap n).2) (logTrace m'.heap (traced m.heap n).2) := by
      cases (traced m.heap n).2 with
      | none => exact hm.heap
      | some message => exact hQ.log _ _ _ _ hm.heap
    dsimp only
    rw [htraced]
    have hlogged : Abreast Q { m with heap := logTrace m.heap (traced m.heap n).2, stack := rest }
        { m' with heap := logTrace m'.heap (traced m.heap n).2, stack := rest } :=
      ⟨hlog, rfl, hm.count⟩
    exact hlogged.foldl (fun _ _ n hm => hm.visit hQ n) _

theorem Abreast.drain (hQ : Lockstep P Q) (hm : Abreast Q m m') (fuel : Nat) :
    Abreast Q (m.drain fuel) (m'.drain fuel) := by
  induction fuel generalizing m m' with
  | zero => exact hm
  | succ fuel ih =>
    unfold Marking.drain
    rw [hm.stack]
    split_ifs
    · exact hm
    · exact ih (hm.step hQ)

theorem Abreast.reach (hQ : Lockstep P Q) (hm : Abreast Q m m') (n : NodeId) :
    Abreast Q (m.reach n) (m'.reach n) := by
  obtain ⟨quarantine, memory, events, hsame⟩ := hQ.same _ _ hm.heap
  have hsize : m'.heap.nodes.size = m.heap.nodes.size := by
    rw [hsame]
    rfl
  unfold Marking.reach
  rw [hsize]
  exact (hm.visit hQ n).drain hQ _

/-- Markings that are abreast resolve the same weak entries in a pass. -/
theorem Abreast.weakPass (hQ : Lockstep P Q) (entries : List (Nat × NodeId × Option NodeId))
    (hm : Abreast Q m m') : Abreast Q (m.weakPass entries).1 (m'.weakPass entries).1 ∧
      (m'.weakPass entries).2 = (m.weakPass entries).2 := by
  induction entries generalizing m m' with
  | nil => exact ⟨hm, rfl⟩
  | cons entry rest ih =>
    obtain ⟨slot, key, value⟩ := entry
    obtain ⟨quarantine, memory, events, hsame⟩ := hQ.same _ _ hm.heap
    have hmarked : m'.isMarked key = m.isMarked key := by
      unfold isMarked Heap.readsMarked
      rw [hsame]
      rfl
    unfold Marking.weakPass
    rw [hmarked]
    split_ifs
    · cases value with
      | none => exact ih hm
      | some value => exact ih (hm.reach hQ value)
    · have hrest := ih hm
      exact ⟨hrest.1, congrArg ((slot, key, value) :: ·) hrest.2⟩

theorem Abreast.weakClosure (hQ : Lockstep P Q) (fuel : Nat)
    (entries : List (Nat × NodeId × Option NodeId)) (hm : Abreast Q m m') :
    Abreast Q (m.weakClosure fuel entries).1 (m'.weakClosure fuel entries).1 ∧
      (m'.weakClosure fuel entries).2 = (m.weakClosure fuel entries).2 := by
  induction fuel generalizing m m' entries with
  | zero => exact ⟨hm, rfl⟩
  | succ fuel ih =>
    obtain ⟨hpass, hunresolved⟩ := hm.weakPass hQ entries
    unfold Marking.weakClosure
    dsimp only
    rw [hunresolved]
    split_ifs
    · exact ⟨hpass, rfl⟩
    · exact ih _ hpass

/-- Marking does the same in heaps that are related. -/
theorem abreast_run (hQ : Lockstep P Q) (hhk : Q h k) :
    Abreast Q (Marking.run h).1 (Marking.run k).1 ∧ (Marking.run k).2 = (Marking.run h).2 := by
  have hflip : Q h.flip k.flip := hQ.change h k Heap.flip (.of_eq rfl rfl) hhk
  obtain ⟨quarantine, memory, events, hsame⟩ := hQ.same _ _ hflip
  have hkeyed : keyed k.flip = keyed h.flip := by
    rw [hsame]
    rfl
  have hroots : k.flip.rootNodes = h.flip.rootNodes := by
    rw [hsame]
    rfl
  have hstart : Abreast Q (start h.flip) (start k.flip) := ⟨hflip, rfl, rfl⟩
  have hrooted := hstart.foldl (fun _ _ n hm => hm.reach hQ n) h.flip.rootNodes
  have hclosure := hrooted.weakClosure hQ ((keyed h.flip).length + 1) (keyed h.flip)
  have hrun : ∀ h, Marking.run h =
      ((h.flip.rootNodes.foldl reach (start h.flip)).weakClosure ((keyed h.flip).length + 1)
        (keyed h.flip)).map id (·.map Prod.fst) := fun h => rfl
  rw [hrun, hrun, hkeyed, hroots]
  exact ⟨hclosure.1, congrArg (List.map _) hclosure.2⟩

end Marking

/-- Twins go in lockstep. -/
theorem Twins.lockstep : Lockstep P (Twins P) where
  same := fun _ _ ht => ht.same
  change := fun _ _ _ hg ht => ht.change hg
  log := fun _ _ level text ht => ht.log level text

/-- What is to be kept of a heap is kept of it in lockstep with itself. -/
theorem Kept.lockstep (h₀ : Heap) : Lockstep P fun h k => h = k ∧ Kept P h₀ h where
  same := by
    rintro h _ ⟨rfl, -⟩
    exact ⟨h.config.quarantine, h.memory, h.events, rfl⟩
  change := by
    rintro h _ g hg ⟨rfl, hk⟩
    exact ⟨rfl, hk.trans (.change hk.runs hg)⟩
  log := by
    rintro h _ level text ⟨rfl, hk⟩
    exact ⟨rfl, hk.trans (.setEvents hk.runs _)⟩

theorem blind_markReachable : Blind P markReachable := by
  have hkept : ∀ h : Heap, h.Runs P → Kept P h (Marking.run h).1.heap := fun h hr =>
    (Marking.abreast_run (Kept.lockstep h) ⟨rfl, .refl hr⟩).1.heap.2
  have hsteady : Steady P (fun a => ∃ b, a = b) markReachable := fun h hr =>
    ⟨⟨_, rfl⟩, hkept h hr⟩
  refine ⟨hsteady, fun k hr => ⟨⟨_, rfl⟩, hkept k hr⟩, fun h k ht => ?_⟩
  obtain ⟨habreast, hdead⟩ := Marking.abreast_run Twins.lockstep ht
  have hresult : ((Marking.run h).1.count, (Marking.run h).2) =
      ((Marking.run k).1.count, (Marking.run k).2) := by
    rw [habreast.count, hdead]
  exact .ok hresult habreast.heap

theorem blind_mark : Blind P mark :=
  .bind blind_markReachable fun _ => .bind (blind_expireEntries _) fun _ => .pure _

/-! ## Dropping payloads -/

theorem blind_releasePayload (n : NodeId) : Blind P (releasePayload n) :=
  .bind (.look rfl) fun _ => .bind (.update (.dropPayload n)) fun _ => blind_releaseAll _

section

variable (hrun : run.Faithful P)
include hrun

/-- A destructor runs a program of which `P` holds. -/
theorem blind_runDestructor (n : NodeId) : Blind P (runDestructor run n) := by
  refine Alike.inspect (fun hook => ∀ program, hook = some program → P program)
    rfl (fun h hr program hprogram => ?_) fun hook hhook => ?_
  · obtain ⟨p, hp, hpayload⟩ := Option.bind_eq_some_iff.1 hprogram
    exact hr.hooks n p program hp hpayload
  · cases hook with
    | none => exact .pure rfl
    | some hook =>
      have hP : P hook := hhook hook rfl
      have hpop : Blind P (Act.update fun h => { h with dying := h.dying.tail }) :=
        .update (.of_eq rfl rfl)
      have hpush : Blind P (Act.update fun h => { h with dying := n :: h.dying }) :=
        .update (.of_eq rfl rfl)
      exact Alike.bind hpush fun _ _ _ => ((hrun hook hP).ensuring hpop).bind fun as as' has =>
        .emit (.destructor hP has)

theorem blind_dropPayload (n : NodeId) : Blind P (dropPayload run n) := by
  have hstart : Blind P (Act.update fun h => (h.emit (.dropped n)).befall n .started) :=
    .emitThen (g := (·.befall n .started)) _ (.of_eq rfl rfl)
  have hdestroy := (blind_runDestructor hrun n).ensuring (blind_releasePayload n)
  exact .bind hstart fun _ => .bind (.onFailure hdestroy (.update (.of_eq rfl rfl))) fun _ =>
    .update (.of_eq rfl rfl)

theorem blind_detach (n : NodeId) (status : Status) : Blind P (detach run n status) :=
  .ite (.bind (.update (.setStatus rfl)) fun _ => blind_dropPayload hrun n) (.pure _)

/-! ## Sweeping -/

theorem blind_dismantle (n : NodeId) : Blind P (dismantle run n) := by
  refine .bind (.look rfl) fun status => ?_
  have hlast := Blind.bind (blind_detach hrun n status) fun _ => blind_reclaim n
  exact .ite (.bind (blind_expireEntries _) fun _ => hlast) hlast

theorem blind_destroy (n : NodeId) : Blind P (destroy run n) := by
  have hrest : Blind P (do
      Act.update (·.modifyRings (·.unlink (.node n)))
      dismantle run n) := .bind (.update (.of_eq rfl rfl)) fun _ => blind_dismantle hrun n
  have herase : Discreet P fun h => h.setStatus n ((h.status n).erase .moribund) := .setStatus rfl
  rw [destroy_eq]
  exact .bind (.look rfl) fun _ =>
    .ite (.bind (blind_unqueue n) fun _ => .bind (.update herase) fun _ => hrest) hrest

theorem blind_drain (fuel reclaimed : Nat) : Blind P (drain run fuel reclaimed) := by
  induction fuel generalizing reclaimed with
  | zero => exact .throw _
  | succ fuel ih =>
    refine .bind (.look rfl) fun next => ?_
    cases next with
    | none => exact .pure _
    | some n =>
      have herase : Discreet P fun h => h.setStatus n ((h.status n).erase .moribund) :=
        .setStatus rfl
      exact .bind (.update (.of_eq rfl rfl)) fun _ => .bind (.update herase) fun _ =>
        .bind (.look rfl) fun _ => .ite (.bind (blind_destroy hrun n) fun _ => ih _) (ih _)

end

/-- Holding off collections cannot tell twins apart if what it is done for cannot. -/
theorem blind_inhibiting {α : Type} {body : Act α} (hbody : Blind P body) :
    Blind P (inhibiting body) :=
  .bind (.update (.of_eq rfl rfl)) fun _ => .ensuring hbody (.update (.of_eq rfl rfl))

section

variable (hrun : run.Faithful P)
include hrun

theorem blind_liteSweep (fuel : Nat) : Blind P (liteSweep run fuel) := by
  have hthreshold : Blind P (Act.update fun h =>
      { h with liteThreshold := Word.addSaturating h.bytes h.config.margin }) :=
    .updateBytes (fun bytes h =>
      { h with liteThreshold := Word.addSaturating bytes h.config.margin }) fun _ => .of_eq rfl rfl
  refine .bind (.look rfl) fun _ => .ite (.pure _) (blind_inhibiting ?_)
  exact .bind (.look rfl) fun pinned => .bind (.forM blind_increment _) fun _ =>
    .bind (blind_drain hrun fuel 0) fun _ => .bind (.forM blind_decrement _) fun _ =>
      .bind hthreshold fun _ => .bind (.update (.of_eq rfl rfl)) fun _ =>
        .bind (.update (.of_eq rfl rfl)) fun _ => .pure _

theorem blind_sweepLive (fuel detached : Nat) : Blind P (sweepLive run fuel detached) := by
  induction fuel generalizing detached with
  | zero => exact .throw _
  | succ fuel ih =>
    refine .bind (.look rfl) fun next => ?_
    cases next with
    | none => exact .pure _
    | some n =>
      exact .bind (.update (.of_eq rfl rfl)) fun _ => .bind (.look rfl) fun status =>
        .bind (blind_detach hrun n status) fun _ => .bind (.look rfl) fun _ =>
          .ite (.bind (blind_makeMoribund n) fun _ => ih _) (ih _)

theorem blind_sweep (fuel : Nat) : Blind P (sweep run fuel) :=
  .bind (blind_sweepLive hrun fuel 0) fun _ => .bind (.update (.of_eq rfl rfl)) fun _ => .pure _

/-! ## Full collections -/

theorem blind_markSweep (fuel : Nat) : Blind P (markSweep run fuel) := by
  have hinhibited : Blind P (inhibiting do
      enterPhase .marking
      let marked ← mark
      enterPhase .sweeping
      let detached ← sweep run fuel
      return (marked, detached)) :=
    blind_inhibiting (.bind (.update (.of_eq rfl rfl)) fun _ => .bind blind_mark fun _ =>
      .bind (.update (.of_eq rfl rfl)) fun _ => .bind (blind_sweep hrun fuel) fun _ => .pure _)
  have hrest := fun (r : Nat × Nat) => Blind.bind (blind_liteSweep hrun fuel) fun reclaimed =>
    Blind.bind (Blind.update (P := P) (g := fun h => { h with phase := .idle })
      (.of_eq rfl rfl)) fun _ =>
      Blind.pure (CollectionResult.mk r.1 r.2 reclaimed)
  exact .bind (.look rfl) fun _ => .ite (.bind (.fatal _) fun _ => .bind hinhibited hrest)
    (.bind hinhibited hrest)

end

/-- Retuning the trigger depends on the memory by its bytes only. -/
theorem blind_retune : Blind P retune := by
  refine .bind (.lookBytes (fun bytes _ => bytes) fun _ => rfl) fun live =>
    .bind (.look rfl) fun _ => .ite ?_ ?_
  · refine .bind (.look rfl) fun headroom => .bind (.look rfl) fun least => ?_
    cases (Balancer.new least).ended? headroom live with
    | none => exact .throw _
    | some b => exact .update (.of_eq rfl rfl)
  · exact .bind (.look rfl) fun _ =>
      .ite (.bind (.log _ _) fun _ => .update (.of_eq rfl rfl)) (.pure _)

theorem blind_record (r : CollectionResult) : Blind P (record r) :=
  .updateBytes (fun bytes h => h.modifyStats fun s =>
    { s with
      fullCollections := s.fullCollections + 1
      lastMarked := r.marked
      totalMarked := s.totalMarked + r.marked
      totalDetached := s.totalDetached + r.detached
      bytesAfterLastCollection := bytes }) fun _ => .of_eq rfl rfl

theorem blind_report (before : Nat) (r : CollectionResult) : Blind P (report before r) :=
  .logBytes .info (fun bytes h =>
    s!"Garbage collection {h.stats.fullCollections} = {r.marked} marked, " ++
      s!"{r.detached} detached, {r.reclaimed} reclaimed " ++
      s!"({before} -> {bytes} bytes, trigger {h.trigger} bytes, TIME, " ++
      s!"{h.pending.length} finalizers pending)") fun _ => rfl

section

variable (hrun : run.Faithful P)
include hrun

theorem blind_collect (fuel : Nat) : Blind P (collect run fuel) := by
  refine .bind (.look rfl) fun _ => .ite (.pure _) (.bind (.update (.of_eq rfl rfl)) fun _ =>
    .ensuring ?_ (.update (.of_eq rfl rfl)))
  refine .bind (.lookBytes (fun bytes _ => bytes) fun _ => rfl) fun before =>
    .bind (blind_markSweep hrun fuel) fun result => .bind blind_retune fun _ =>
      .bind (blind_record result) fun _ => .bind (.look rfl) fun _ => ?_
  have hdone : Blind P (do
      Act.update (·.modifyChronicle (·.collect result))
      return result) := .bind (.update (.of_eq rfl rfl)) fun _ => .pure _
  exact .ite (.bind (blind_report before result) fun _ => hdone) hdone

theorem blind_runFinalizers (fuel ran : Nat) : Blind P (runFinalizers run fuel ran) := by
  induction fuel generalizing ran with
  | zero => exact .throw _
  | succ fuel ih =>
    refine Alike.inspect (fun next => ∀ f, next = some f → P f.program) rfl (fun h hr f hf => ?_)
      fun next hnext => ?_
    · exact hr.pending f (List.mem_of_mem_head? hf)
    · cases next with
      | none => exact .pure rfl
      | some f =>
        have hP : P f.program := hnext f rfl
        have htake : Discreet P (·.takeUp f) :=
          .of_runs rfl rfl fun h hr => { hr with
            pending := fun e he => hr.pending e (List.mem_of_mem_tail he) }
        exact Alike.bind (Blind.update htake) fun _ _ _ => (hrun f.program hP).bind
          fun as as' has => (Alike.emit (.finalizer hP has)).bind fun _ _ _ => ih _

theorem blind_runPendingFinalizers (fuel : Nat) : Blind P (runPendingFinalizers run fuel) :=
  blind_runFinalizers hrun fuel 0

theorem blind_runLiteSweep (fuel : Nat) : Blind P (runLiteSweep run fuel) :=
  .bind (blind_liteSweep hrun fuel) fun _ =>
    .bind (.discard (blind_runPendingFinalizers hrun fuel)) fun _ => .pure _

theorem blind_forceFullCollection (fuel : Nat) : Blind P (forceFullCollection run fuel) :=
  .bind (blind_collect hrun fuel) fun _ =>
    .bind (.discard (blind_runPendingFinalizers hrun fuel)) fun _ => .pure _

end

/-! ## Allocation -/

/-- Building a node around a payload whose destructor may be run cannot tell twins apart. -/
theorem blind_reserve (kind : Kind) {payload : Payload}
    (hhook : ∀ program, payload.hook = some program → P program) :
    Blind P (reserve kind payload) := by
  have hkept : ∀ h : Heap, h.Runs P → Kept P h (h.build kind payload) := fun h hr =>
    ⟨hr.build kind hhook, Nat.le_refl _, Nat.le_refl _⟩
  exact .bind (.look rfl) fun _ => .bind
    (Alike.update hkept hkept fun h k ht => ht.build kind hhook) fun _ => .pure _

theorem install_eq (n : NodeId) (base : Memory.Address) (h : Heap) :
    install n base h = .ok () (h.equip n base) := by
  have hreturns : Returns (install n base) h fun _ k => k = h.equip n base := leads_install.2 rfl
  obtain ⟨_, _, heq, rfl⟩ := returns_iff.1 hreturns
  exact heq

/-- Wherever the memory puts the storage for a node, installing it does the same to twins. -/
theorem alike_install (n : NodeId) (base base' : Memory.Address) :
    Alike P Eq (install n base) (install n base') := by
  have hkept : ∀ (h : Heap) base, h.Runs P → Kept P h (h.equip n base) := fun h base hr =>
    ⟨hr.equip n base, Nat.le_refl _, Nat.le_refl _⟩
  refine ⟨fun h hr => leads_install.2 ⟨⟨(), rfl⟩, hkept h base hr⟩,
    fun k hr => leads_install.2 ⟨⟨(), rfl⟩, hkept k base' hr⟩, fun h k ht => ?_⟩
  rw [install_eq, install_eq]
  exact .ok rfl (ht.equip n base base')

/-- Memory without a limit has a place for a node. -/
theorem alike_admit? (kind : Kind) : Alike P (fun base base' => base.isSome = base'.isSome)
    (Act.view fun h => h.memory.admit? kind.size) (Act.view fun h => h.memory.admit? kind.size) :=
  .view (fun _ _ => ⟨_, rfl⟩) (fun _ _ => ⟨_, rfl⟩) fun h k ht => by
    have hsize := kind.size_le_systemLimit
    rw [Memory.Allocator.admit?_isSome ht.left.unlimited hsize,
      Memory.Allocator.admit?_isSome ht.right.unlimited hsize]

section

variable (hrun : run.Faithful P)
include hrun

theorem blind_collectIfDue (fuel : Nat) : Blind P (collectIfDue run fuel) := by
  -- Whatever the mode, it looks at settings, thresholds and bytes, and twins agree on these.
  have hlite : Blind P (Act.view liteDue) :=
    Alike.view (fun h _ => ⟨_, rfl⟩) (fun k _ => ⟨_, rfl⟩) fun h k ht => by
      have hbytes := ht.bytes
      obtain ⟨quarantine, memory, events, rfl⟩ := ht.same
      unfold liteDue
      rw [hbytes]
      rfl
  have hfull : Blind P (do if ← Act.view fullDue then discard <| collect run fuel) :=
    .bind (.lookBytes (fun bytes h => h.enabled && h.trigger < bytes) fun _ => rfl) fun _ =>
      .ite (.discard (blind_collect hrun fuel)) (.pure _)
  exact .bind (.look rfl) fun _ => .ite (.bind hlite fun _ =>
    .ite (.bind (.discard (blind_liteSweep hrun fuel)) fun _ => hfull) hfull) (.pure _)

theorem blind_place (fuel : Nat) (n : NodeId) : Blind P (place run fuel n) := by
  refine .bind (blind_collectIfDue hrun fuel) fun _ => .bind (.look rfl) fun kind =>
    .ite (.bind (.fatal _) fun _ => ?_) ?_
  all_goals
    refine (alike_admit? kind).bind fun base base' hsome => ?_
    cases base with
    | none =>
      cases base' with
      | none => exact .throw _
      | some _ => cases hsome
    | some base =>
      cases base' with
      | none => cases hsome
      | some base' => exact alike_install n base base'

/-- Allocating a node whose destructor may be run cannot tell twins apart. -/
theorem blind_allocate (fuel : Nat) (kind : Kind) {payload : Payload}
    (hhook : ∀ program, payload.hook = some program → P program) :
    Blind P (allocate run fuel kind payload) :=
  .bind (blind_reserve kind hhook) fun n =>
    .bind (.onFailure (blind_place hrun fuel n) (blind_dropPayload hrun n)) fun _ => .pure _

end

/-! ## Checking -/

/-- The walk over the live list does not depend on the memory. -/
theorem walkLive_rebase (h : Heap) (quarantine : Option Nat) (memory : Memory.Allocator)
    (events : List Event) (fuel : Nat) (x : Link) (seen : Walked) :
    walkLive (h.rebase quarantine memory events) fuel x seen = walkLive h fuel x seen := by
  induction fuel generalizing x seen with
  | zero => rfl
  | succ fuel ih =>
    unfold walkLive
    simp only [ih]
    rfl

theorem walkMoribund_rebase (h : Heap) (quarantine : Option Nat) (memory : Memory.Allocator)
    (events : List Event) (met ns : List NodeId) :
    walkMoribund (h.rebase quarantine memory events) met ns = walkMoribund h met ns := by
  induction ns generalizing met with
  | nil => rfl
  | cons n ns ih =>
    unfold walkMoribund
    rw [ih]
    rfl

theorem check_rebase (h : Heap) (quarantine : Option Nat) (memory : Memory.Allocator)
    (events : List Event) : check (h.rebase quarantine memory events) = check h := by
  have hlive : ∀ fuel x seen, walkLive (h.rebase quarantine memory events) fuel x seen =
      walkLive h fuel x seen := walkLive_rebase h quarantine memory events
  unfold check
  rw [hlive, walkMoribund_rebase]
  rfl

theorem blind_checked : Blind P checked := by
  have hcheck : Heap.Oblivious check :=
    funext fun h => funext fun q => funext fun m => funext fun es => check_rebase h q m es
  have hnote : ∀ r, Blind P (Act.update (noteVirgins · r)) := by
    intro r
    cases r with
    | error v => exact .update (.of_eq rfl rfl)
    | ok r =>
      unfold noteVirgins
      dsimp only
      split_ifs
      · exact .update (.of_eq rfl rfl)
      · exact .log _ _
  have hparts : Blind P (do
      let r ← Act.view check
      Act.update (noteVirgins · r)
      return r) := .bind (.look hcheck) fun r => .bind (hnote r) fun _ => .pure _
  exact hparts

theorem blind_checkInvariants : Blind P checkInvariants := by
  refine .bind blind_checked fun r => ?_
  cases r with
  | ok _ => exact .pure _
  | error v => exact .bind (.log _ _) fun _ => .pure _

end Collector

end HybridHeap
