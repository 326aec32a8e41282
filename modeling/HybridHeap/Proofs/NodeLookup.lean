import HybridHeap.Proofs.Safety
import HybridHeap.Proofs.Sweeping

/-!
# Looking nodes up by address

An address is looked up in three steps: the block that contains it, its mark, and the node that has
this block for its storage, if its payload has not been dropped. The invariant keeps all three in
step: the blocks do not overlap, the block of a node is marked as long as the node has it, and no
two nodes share one. So an address in the storage of a node whose payload has not been dropped leads
to that node, in every heap that the mutator comes to.

Behind a quarantine the same holds of the redzones on either side of the storage, since they belong
to the block.
-/

namespace HybridHeap

open Memory

/-- The freed blocks that are held back. -/
def Memory.Allocator.held : Allocator → List FreedBlock
  | .direct _ => []
  | .shielded q => q.held

/-- The block of a node is none of those held back. -/
theorem Memory.Allocator.Backs.ne_of_held {a : Allocator} {tidy : Bool} {b : BlockId} {size : Nat}
    (hb : a.Backs tidy b size) {f : FreedBlock} (hf : f ∈ a.held) : f.block ≠ b := by
  cases a with
  | direct s => cases hf
  | shielded q => exact hb.2.1 f (Array.mem_toList_iff.1 (List.mem_of_mem_drop hf))

namespace Heap

variable {h : Heap} {n : NodeId} {a : Nat}

/-- The address of the first byte of a node's storage. -/
def storageStart (h : Heap) (n : NodeId) : Nat := h.memory.storageAddress (h.block n)

/-- The address behind the last byte of a node's storage. -/
def storageStop (h : Heap) (n : NodeId) : Nat := h.storageStart n + (h.kind n).size

/-- The address lies in the storage of the node. -/
def Stores (h : Heap) (n : NodeId) (a : Nat) : Prop :=
  h.storageStart n ≤ a ∧ a < h.storageStop n

/-- The address lies in one of the redzones around the storage of the node. -/
def Fences (h : Heap) (n : NodeId) (a : Nat) : Prop :=
  h.memory.isShielded = true ∧
    (h.storageStart n ≤ a + Quarantine.redzoneSize ∧ a < h.storageStart n ∨
      h.storageStop n ≤ a ∧ a < h.storageStop n + Quarantine.redzoneSize)

/-- The address lies in the storage of the node or around it. -/
def Encloses (h : Heap) (n : NodeId) (a : Nat) : Prop := h.Stores n a ∨ h.Fences n a

instance : Decidable (h.Stores n a) := inferInstanceAs (Decidable (_ ∧ _))

instance : Decidable (h.Fences n a) := inferInstanceAs (Decidable (_ ∧ _))

instance : Decidable (h.Attached n) := inferInstanceAs (Decidable (_ ∧ _))

end Heap

variable {law : Law} {w : Juncture} {h : Heap} {n : NodeId} {a : Nat}

/-- The block of a node contains the addresses in its storage and around it. -/
theorem Invariant.exists_block (inv : Invariant law w h) (hn : h.isAllocated n = true) :
    ∃ x, h.memory.store.live? (h.block n) = some x ∧ ∀ a, x.Contains a ↔ h.Encloses n a := by
  obtain ⟨x, hlive, hsize⟩ := (inv.backed n hn).lends
  have hstart : h.storageStart n = x.start + h.memory.leading := by
    have hblock := (BlockStore.outstanding_of_live? hlive).1
    unfold Heap.storageStart Allocator.storageAddress BlockStore.baseAddress
    rw [hblock]
    rfl
  have hstop : h.storageStop n + h.memory.leading = x.stop := by
    rw [x.stop_eq, hsize]
    unfold Heap.storageStop Allocator.footprint
    omega
  refine ⟨x, hlive, fun a => ?_⟩
  unfold Block.Contains Heap.Encloses Heap.Stores Heap.Fences
  rw [← hstop, hstart]
  unfold Heap.storageStop at hstop ⊢
  rw [hstart] at hstop ⊢
  cases h.memory with
  | direct s =>
    have hleading : (Allocator.direct s).leading = 0 := rfl
    have hshield : (Allocator.direct s).isShielded = false := rfl
    rw [hleading, hshield]
    simp
  | shielded q =>
    have hleading : (Allocator.shielded q).leading = Quarantine.redzoneSize := rfl
    have hshield : (Allocator.shielded q).isShielded = true := rfl
    rw [hleading, hshield]
    simp only [true_and]
    omega

/-- An address in the storage of a node or around it is found in the block of the node. -/
theorem Invariant.baseOf?_eq_some (inv : Invariant law w h) (hn : h.isAllocated n = true)
    (ha : h.Encloses n a) : h.memory.baseOf? a = some (h.block n) := by
  obtain ⟨x, hlive, hcontains⟩ := inv.exists_block hn
  exact inv.laid.laid.baseOf?_eq_some_iff.2 ⟨x, hlive, (hcontains a).2 ha⟩

/-- The node of a block is the one whose storage it is, if its payload has not been dropped. -/
theorem Invariant.nodeIn?_eq_some_iff (inv : Invariant law w h) {b : BlockId} :
    Mutator.nodeIn? h b = some n ↔ h.Attached n ∧ h.block n = b := by
  have hhoused : ∀ {m : NodeId} {node : Node}, h.nodes[m]? = some node →
      ((node.stage == .allocated && node.block == b) = true ↔
        h.isAllocated m = true ∧ h.block m = b) := by
    intro m node hnode
    simp [Heap.isAllocated, Heap.block, hnode]
  unfold Mutator.nodeIn?
  constructor
  · intro hfound
    split_ifs at hfound
    obtain ⟨hfind, hdetached⟩ := Option.filter_eq_some_iff.1 hfound
    obtain ⟨hlt, hnode, -⟩ := Array.findIdx?_eq_some_iff_getElem.1 hfind
    obtain ⟨hallocated, hblock⟩ := (hhoused (Array.getElem?_eq_getElem hlt)).1 hnode
    exact ⟨⟨hallocated, by simpa using hdetached⟩, hblock⟩
  · rintro ⟨⟨hallocated, hdetached⟩, rfl⟩
    rw [if_pos (inv.bitmap n hallocated)]
    obtain ⟨node, hnode, -⟩ := Heap.exists_of_isAllocated hallocated
    cases hfind : h.nodes.findIdx? fun node =>
        node.stage == .allocated && node.block == h.block n with
    | none =>
      have hnone := Array.findIdx?_eq_none_iff.1 hfind node (Array.mem_of_getElem? hnode)
      rw [(hhoused hnode).2 ⟨hallocated, rfl⟩] at hnone
      cases hnone
    | some m =>
      obtain ⟨hlt, hnode', -⟩ := Array.findIdx?_eq_some_iff_getElem.1 hfind
      obtain ⟨hallocated', hblock⟩ := (hhoused (Array.getElem?_eq_getElem hlt)).1 hnode'
      obtain rfl : m = n := inv.apart m n hallocated' hallocated hblock
      exact Option.filter_eq_some_iff.2 ⟨rfl, by simpa using hdetached⟩

/-- A node is found at the addresses in its storage and around it, as long as its payload has not
been dropped. -/
theorem Invariant.nodeAt?_eq_some_iff (inv : Invariant law w h) :
    Mutator.nodeAt? h a = some n ↔ h.Attached n ∧ h.Encloses n a := by
  unfold Mutator.nodeAt?
  constructor
  · intro hfound
    obtain ⟨b, hbase, hnode⟩ := Option.bind_eq_some_iff.1 hfound
    obtain ⟨hattached, rfl⟩ := inv.nodeIn?_eq_some_iff.1 hnode
    obtain ⟨x, hlive, hcontains⟩ := inv.exists_block hattached.1
    obtain ⟨y, hlive', ha⟩ := inv.laid.laid.baseOf?_eq_some_iff.1 hbase
    obtain rfl : x = y := Option.some.inj (hlive.symm.trans hlive')
    exact ⟨hattached, (hcontains a).1 ha⟩
  · rintro ⟨hattached, ha⟩
    exact Option.bind_eq_some_iff.2
      ⟨_, inv.baseOf?_eq_some hattached.1 ha, inv.nodeIn?_eq_some_iff.2 ⟨hattached, rfl⟩⟩

namespace Mutator

open Act

/-- How addresses are looked up in a heap. -/
structure Locates (k : Heap) : Prop where
  /-- A node is found exactly at the addresses in its storage and in the redzones around it, as long
  as its payload has not been dropped. -/
  found : ∀ (a : Nat) n, nodeAt? k a = some n ↔ k.Attached n ∧ (k.Stores n a ∨ k.Fences n a)
  /-- No address in a block that is held back leads to a node. -/
  held : ∀ f ∈ k.memory.held, ∀ x, k.memory.store.blocks[f.block]? = some x →
    ∀ a, x.Contains a → nodeAt? k a = none
  /-- Nor does one in the storage of a node whose payload has been dropped or is being dropped. -/
  dropped : ∀ n, k.isAllocated n = true → ¬k.Attached n →
    ∀ a, k.Stores n a ∨ k.Fences n a → nodeAt? k a = none
  /-- Outside destructors a node that has storage is attached if it has a payload. -/
  attached : k.dying = [] → ∀ n, k.Attached n ↔ k.isAllocated n = true ∧ (k.payload? n).isSome

/-- In every heap that the mutator comes to without a fatal error an address leads to a node exactly
if it lies in the storage of a node whose payload has not been dropped or in a redzone around it. -/
theorem nodeAt?_exact {k : Heap} (hk : Visited .honest k) : Locates k := by
  obtain ⟨w, hw, inv⟩ := hk.invariant
  have hnone : ∀ a, (∀ n, k.Attached n → ¬k.Encloses n a) → nodeAt? k a = none := by
    intro a hout
    refine Option.eq_none_iff_forall_ne_some.2 fun n hn => ?_
    obtain ⟨hattached, ha⟩ := inv.nodeAt?_eq_some_iff.1 hn
    exact hout n hattached ha
  constructor
  case found => exact fun a n => inv.nodeAt?_eq_some_iff
  case held =>
    intro f hf x hx a ha
    refine hnone a fun n hattached hn => ?_
    -- The block of the node is another one, and no address is in both.
    obtain ⟨y, hlive, hcontains⟩ := inv.exists_block hattached.1
    have hy := (BlockStore.outstanding_of_live? hlive).1
    have hya := (hcontains a).2 hn
    unfold Block.Contains at ha hya
    obtain hlt | hlt := Nat.lt_or_gt_of_ne ((inv.backed n hattached.1).ne_of_held hf)
    · have hordered := inv.laid.ordered hx hy hlt
      omega
    · have hordered := inv.laid.ordered hy hx hlt
      omega
  case dropped =>
    intro n hallocated hdetached a ha
    refine hnone a fun m hattached hm => hdetached ?_
    have hblocks := (inv.baseOf?_eq_some hattached.1 hm).symm.trans
      (inv.baseOf?_eq_some hallocated ha)
    obtain rfl : m = n := inv.apart m n hattached.1 hallocated (Option.some.inj hblocks)
    exact hattached
  case attached =>
    intro hdying n
    have hidle : w.Idle := hw.idle_of_dying (inv.dying ▸ hdying)
    have hdropping : n ∉ w.dropping := by
      rw [hidle.dropping]
      exact List.not_mem_nil
    unfold Heap.Attached
    refine and_congr_right fun hallocated => ?_
    rw [← Bool.not_eq_true, inv.emptied n hdropping hallocated, Option.isSome_iff_ne_none]

/-- The heap to which a program leads behind a quarantine, if it returns. -/
def playShielded (program : Program) : Option Heap :=
  match program.mapM (answer (.under .honest) (runNested (.under .honest) 9 9) 9)
      (.start .standard none (some 4096) fun _ => 0) with
  | .ok _ h => some h
  | .error _ _ => none

theorem reached_of_playShielded {program : Program} (hplay : playShielded program = some h) :
    Reached .honest h := by
  unfold playShielded at hplay
  split at hplay
  · rename_i hrun
    cases hplay
    exact (Reached.start _ _ _ _).mapM_answer hrun
  · cases hplay

/-- Behind a quarantine that holds the block of a freed node back, the last byte of the storage of
another node leads to it, and no address in the block held back does. -/
theorem nodeAt?_exact_quarantined : ∃ k, Visited .honest k ∧ k.isAllocated 0 = false ∧
    k.Stores 1 (k.storageStop 1 - 1) ∧ nodeAt? k (k.storageStop 1 - 1) = some 1 ∧
    k.memory.held.map FreedBlock.block = [0] ∧ Locates k := by
  have hplay : ((playShielded [.allocate (.edge "e") .node [] none,
      .allocate (.root "a") .node [] none, .drop "e", .lite]).any fun k =>
        k.isAllocated 0 = false ∧ k.Attached 1 ∧ k.Stores 1 (k.storageStop 1 - 1) ∧
        k.memory.held.map FreedBlock.block = [0]) = true := by
    decide +kernel
  obtain ⟨k, hk, hfacts⟩ := (Option.any_eq_true _ _).1 hplay
  obtain ⟨hfreed, hattached, hstores, hheld⟩ := of_decide_eq_true hfacts
  have hvisited : Visited .honest k := ⟨k, reached_of_playShielded hk, .inl rfl⟩
  have hlocates := nodeAt?_exact hvisited
  exact ⟨k, hvisited, hfreed, hstores, (hlocates.found _ _).2 ⟨hattached, .inl hstores⟩, hheld,
    hlocates⟩

/-- The byte before the storage of a node, which belongs to a redzone, leads to the node all the
same. -/
theorem nodeAt?_redzone : ∃ k, Visited .honest k ∧ k.Attached 0 ∧
    ¬k.Stores 0 (k.storageStart 0 - 8) ∧ nodeAt? k (k.storageStart 0 - 8) = some 0 := by
  have hplay : ((playShielded [.allocate (.root "a") .node [] none]).any fun k => k.Attached 0 ∧
      ¬k.Stores 0 (k.storageStart 0 - 8) ∧ nodeAt? k (k.storageStart 0 - 8) = some 0) = true := by
    decide +kernel
  obtain ⟨k, hk, hfacts⟩ := (Option.any_eq_true _ _).1 hplay
  exact ⟨k, ⟨k, reached_of_playShielded hk, .inl rfl⟩, of_decide_eq_true hfacts⟩

end Mutator

end HybridHeap
