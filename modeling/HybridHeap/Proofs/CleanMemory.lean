import HybridHeap.Proofs.Storage

/-!
# Memory that nothing writes to

A quarantine is clean if no block that it holds back has been written to since it was freed, the
store knows each of these blocks, and none of them is held back twice. As long as nothing writes to
blocks behind the allocator's back, handing out blocks, marking them and giving them back keeps a
quarantine clean: it finds no corrupted block, and every block that it gives to the store is known
there.
-/

namespace HybridHeap.Memory

namespace BlockStore

variable {s : BlockStore} {b c : BlockId}

/-- A further block leaves the others out or not. -/
theorem isLive_push (base : Address) (size : Nat) (hb : b < s.blocks.size) :
    (s.push base size).isLive b = s.isLive b := by
  unfold isLive
  rw [live?_push base size hb]

/-- Changing what is recorded of a block besides whether it is out leaves that of all. -/
theorem isLive_modifyBlock {f : Block → Block} (hf : ∀ x, (f x).released = x.released)
    (s : BlockStore) (b c : BlockId) : (s.modifyBlock c f).isLive b = s.isLive b := by
  unfold isLive
  rw [live?_modifyBlock hf]
  split_ifs
  · exact Option.isSome_map
  · rfl

/-- Giving a block back leaves the others out or not. -/
theorem isLive_free (hbc : b ≠ c) : (s.free c).isLive b = s.isLive b := by
  unfold isLive
  rw [live?_free hbc]

end BlockStore

namespace Quarantine

/-- Nothing was written to the blocks held back. Each is held back once, and the store knows it. -/
structure Clean (q : Quarantine) : Prop where
  nodup : (q.held.map FreedBlock.block).Nodup
  known : ∀ f ∈ q.held, q.inner.isLive f.block = true
  poisoned : ∀ f ∈ q.held, (q.inner.bytesOf f.block).hasOther f.size freedByte = false
  strays : q.strays = []

variable {q : Quarantine} {b : BlockId} {bytes : Nat}

/-- No block of a clean quarantine is found corrupted. -/
theorem Clean.corruptedBlocks (hq : q.Clean) : q.corruptedBlocks = 0 := by
  unfold Quarantine.corruptedBlocks
  rw [List.countP_eq_zero]
  intro f hf
  rw [hq.poisoned f hf]
  exact Bool.false_ne_true

/-- A new quarantine is clean. -/
theorem clean_new (inner : BlockStore) (budget : Nat) : (Quarantine.new inner budget).Clean where
  nodup := List.nodup_nil
  known := fun _ hf => absurd hf List.not_mem_nil
  poisoned := fun _ hf => absurd hf List.not_mem_nil
  strays := rfl

/-- Changing the store leaves the quarantine clean if it leaves the contents of the blocks held back
and whether they are out. -/
theorem Clean.changeStore {inner : BlockStore} (hq : q.Clean)
    (hlive : ∀ f ∈ q.held, inner.isLive f.block = q.inner.isLive f.block)
    (hbytes : ∀ f ∈ q.held, inner.bytesOf f.block = q.inner.bytesOf f.block) :
    Clean { q with inner } where
  nodup := hq.nodup
  known := fun f hf => (hlive f hf).trans (hq.known f hf)
  poisoned := fun f hf => by
    show (inner.bytesOf f.block).hasOther f.size freedByte = false
    rw [hbytes f hf]
    exact hq.poisoned f hf
  strays := hq.strays

/-- What is held back has been freed. -/
theorem mem_freed_of_mem_held {f : FreedBlock} (hf : f ∈ q.held) : f ∈ q.freed :=
  Array.mem_toList_iff.1 (List.mem_of_mem_drop hf)

/-- Handing out a block leaves the quarantine clean. -/
theorem Clean.push (hq : q.Clean) (hfreed : ∀ f ∈ q.freed, f.block < q.inner.blocks.size)
    (base : Address) (bytes : Nat) : (q.push base bytes).Clean := by
  have hlt : ∀ f ∈ q.held, f.block < q.inner.blocks.size := fun f hf =>
    hfreed f (mem_freed_of_mem_held hf)
  have hpushed : Clean { q with
      inner := (q.inner.push base (bytes + 2 * redzoneSize)).modifyBytes q.inner.blocks.size
        fun _ => freshBytes bytes } := by
    refine hq.changeStore (fun f hf => ?_) fun f hf => ?_
    · rw [BlockStore.isLive_modifyBytes, BlockStore.isLive_push base _ (hlt f hf)]
    · rw [BlockStore.bytesOf_modifyBytes (Nat.ne_of_lt (hlt f hf)),
        BlockStore.bytesOf_push base _ (hlt f hf)]
  exact { hpushed with }

/-- A block that is held back is filled with poison over the size it was freed with. -/
theorem hasOther_poison (hb : b < q.inner.blocks.size) :
    ((q.poison b bytes).inner.bytesOf b).hasOther (bytes + 2 * redzoneSize) freedByte = false := by
  rw [Bool.eq_false_iff, ne_eq, Bytes.hasOther_iff]
  rintro ⟨offset, hlt, hne⟩
  apply hne
  unfold poison BlockStore.bytesOf BlockStore.modifyBytes
  rw [BlockStore.getElem?_modifyBlock, if_pos rfl, Array.getElem?_eq_getElem hb]
  simp only [Option.map_some, Option.getD_some]
  split
  · rw [Bytes.read_writeRun, if_pos (by omega)]
  · exact Bytes.read_uniform _ _

/-- A block that is out and is freed is held back besides the others. -/
theorem held_enter (hreleased : q.released ≤ q.freed.size) :
    (q.enter b bytes).held = q.held ++ [⟨b, bytes + 2 * redzoneSize⟩] := by
  show (q.freed.push _).toList.drop q.released = q.freed.toList.drop q.released ++ _
  rw [Array.toList_push, List.drop_append_of_le_length (by simpa using hreleased)]

/-- Freeing a block that is out leaves the quarantine clean. -/
theorem Clean.enter (hq : q.Clean) (hreleased : q.released ≤ q.freed.size)
    (hlive : q.inner.isLive b = true) (hfreed : ∀ f ∈ q.freed, f.block ≠ b) :
    (q.enter b bytes).Clean := by
  have hheld : (q.enter b bytes).held = q.held ++ [⟨b, bytes + 2 * redzoneSize⟩] :=
    held_enter hreleased
  have hout : ∀ f ∈ q.held, f.block ≠ b := fun f hf => hfreed f (mem_freed_of_mem_held hf)
  have hstays : ∀ c, (q.enter b bytes).inner.isLive c = q.inner.isLive c := fun c =>
    BlockStore.isLive_modifyBytes _ _ _ _
  have hmem : ∀ f ∈ (q.enter b bytes).held, f ∈ q.held ∨ f = ⟨b, bytes + 2 * redzoneSize⟩ := by
    intro f hf
    rw [hheld, List.mem_append, List.mem_singleton] at hf
    exact hf
  constructor
  · rw [hheld, List.map_append, List.nodup_append]
    refine ⟨hq.nodup, List.pairwise_singleton _ _, fun c hc d hd => ?_⟩
    obtain ⟨f, hf, rfl⟩ := List.mem_map.1 hc
    rw [List.mem_singleton.1 hd]
    exact hout f hf
  · intro f hf
    rw [hstays]
    obtain hf | rfl := hmem f hf
    · exact hq.known f hf
    · exact hlive
  · intro f hf
    obtain hf | rfl := hmem f hf
    · have hbytes : (q.enter b bytes).inner.bytesOf f.block = q.inner.bytesOf f.block :=
        BlockStore.bytesOf_modifyBytes (hout f hf) _ _
      rw [hbytes]
      exact hq.poisoned f hf
    · obtain ⟨block, hblock⟩ := Option.isSome_iff_exists.1 hlive
      exact hasOther_poison (BlockStore.lt_size_of_live? hblock)
  · rfl

/-- Giving the oldest blocks to the store leaves the quarantine clean. -/
theorem Clean.releaseOldest (hq : q.Clean) : q.releaseOldest.Clean := by
  induction q using Quarantine.releaseOldest.induct with
  | case1 q h oldest isKnown ih =>
    rw [Quarantine.releaseOldest, dif_pos h]
    -- The oldest block is the first that is held back, and the store knows it.
    have hheld : q.held = oldest :: q.freed.toList.drop (q.released + 1) := by
      unfold held
      rw [List.drop_eq_getElem_cons (by simpa using h.2)]
      rfl
    have hknown : isKnown = true := hq.known oldest (hheld ▸ List.mem_cons_self)
    have hnodup := hq.nodup
    rw [hheld, List.map_cons, List.nodup_cons] at hnodup
    have hrest : ∀ f ∈ q.freed.toList.drop (q.released + 1),
        f ∈ q.held ∧ f.block ≠ oldest.block := by
      intro f hf
      refine ⟨hheld ▸ List.mem_cons_of_mem _ hf, fun heq => hnodup.1 ?_⟩
      exact heq ▸ List.mem_map_of_mem hf
    refine ih ⟨hnodup.2, fun f hf => ?_, fun f hf => ?_, ?_⟩
    · obtain ⟨hmem, hne⟩ := hrest f hf
      exact (BlockStore.isLive_free hne).trans (hq.known f hmem)
    · show ((q.inner.free oldest.block).bytesOf f.block).hasOther f.size freedByte = false
      rw [BlockStore.bytesOf_free]
      exact hq.poisoned f (hrest f hf).1
    · show (if isKnown then q.strays else _) = []
      rw [hknown, if_pos rfl]
      exact hq.strays
  | case2 q h =>
    rw [Quarantine.releaseOldest, dif_neg h]
    exact hq

/-- No more blocks are given to the store than were freed. -/
theorem released_le_releaseOldest (hq : q.released ≤ q.freed.size) :
    q.releaseOldest.released ≤ q.releaseOldest.freed.size := by
  induction q using Quarantine.releaseOldest.induct with
  | case1 q h oldest isKnown ih =>
    rw [Quarantine.releaseOldest, dif_pos h]
    exact ih h.2
  | case2 q h =>
    rw [Quarantine.releaseOldest, dif_neg h]
    exact hq

end Quarantine

namespace Allocator

variable {a : Allocator} {b : BlockId} {size : Nat}

/-- Nothing was written to blocks that are held back, if any are. -/
def Clean : Allocator → Prop
  | direct _ => True
  | shielded q => q.Clean ∧ q.released ≤ q.freed.size

/-- A new allocator is clean. -/
theorem clean_new (limit quarantine : Option Nat) : (Allocator.new limit quarantine).Clean := by
  cases quarantine with
  | none => trivial
  | some budget => exact ⟨Quarantine.clean_new _ _, Nat.le_refl _⟩

theorem Clean.assistOnly (ha : a.Clean) : a.assistOnly.Clean := by
  cases a with
  | direct s => trivial
  | shielded q => exact ⟨ha.1.changeStore (fun _ _ => rfl) fun _ _ => rfl, ha.2⟩

/-- Clean memory has no corrupted block. -/
theorem Clean.corruptedBlocks (ha : a.Clean) : a.corruptedBlocks = 0 := by
  cases a with
  | direct s => rfl
  | shielded q => exact ha.1.corruptedBlocks

/-- When a block was given back to clean memory, the store knew all blocks that it got. -/
theorem Clean.straySizes (ha : a.Clean) : a.straySizes = [] := by
  cases a with
  | direct s => rfl
  | shielded q =>
    show q.strays.map FreedBlock.size = []
    rw [ha.1.strays]
    rfl

/-- Handing out a block leaves the memory clean. -/
theorem Clean.push (ha : a.Clean) (hsound : a.Sound) (base : Address) (n : Nat) :
    (a.push base n).Clean := by
  cases a with
  | direct s => trivial
  | shielded q => exact ⟨ha.1.push hsound.2 base n, ha.2⟩

/-- Changing what is recorded of a block besides its contents and whether it is out leaves the
memory clean. -/
theorem Clean.modifyBlock (ha : a.Clean) (b : BlockId) {f : Block → Block}
    (hrel : ∀ x, (f x).released = x.released) (hbytes : ∀ x, (f x).bytes = x.bytes) :
    (a.mapStore (·.modifyBlock b f)).Clean := by
  cases a with
  | direct s => trivial
  | shielded q =>
    exact ⟨ha.1.changeStore (fun _ _ => BlockStore.isLive_modifyBlock hrel _ _ _)
      fun _ _ => BlockStore.bytesOf_modifyBlock hbytes _ _ _, ha.2⟩

/-- Marking a block leaves the memory clean. -/
theorem Clean.setMark (ha : a.Clean) (b : BlockId) : (a.setMark b).Clean := by
  have hmark := ha.modifyBlock b (f := fun block => { block with marked := true }) (fun _ => rfl)
    fun _ => rfl
  cases a with
  | direct s => trivial
  | shielded q =>
    unfold Allocator.setMark mapStore BlockStore.setMark at *
    dsimp only at *
    split_ifs
    · exact hmark
    · exact ha

/-- Clearing the mark of a block leaves the memory clean. -/
theorem Clean.clearMark (ha : a.Clean) (b : BlockId) : (a.clearMark b).Clean := by
  have hmark := ha.modifyBlock b (f := fun block => { block with marked := false }) (fun _ => rfl)
    fun _ => rfl
  cases a with
  | direct s => trivial
  | shielded q =>
    unfold Allocator.clearMark mapStore BlockStore.clearMark at *
    dsimp only at *
    split_ifs
    · exact hmark
    · exact ha

/-! ### How many blocks were handed out -/

theorem size_blocks_push (a : Allocator) (base : Address) (n : Nat) :
    (a.push base n).store.blocks.size = a.store.blocks.size + 1 := by
  cases a with
  | direct s => exact BlockStore.size_blocks_push _ _ _
  | shielded q =>
    exact (BlockStore.size_blocks_modifyBlock _ _ _).trans (BlockStore.size_blocks_push _ _ _)

theorem size_blocks_mapStore {f : BlockStore → BlockStore}
    (hf : ∀ s, (f s).blocks.size = s.blocks.size) (a : Allocator) :
    (a.mapStore f).store.blocks.size = a.store.blocks.size := by
  cases a <;> exact hf _

theorem size_blocks_setMark (a : Allocator) (b : BlockId) :
    (a.setMark b).store.blocks.size = a.store.blocks.size := by
  refine size_blocks_mapStore (fun s => ?_) a
  unfold BlockStore.setMark
  split_ifs
  · exact BlockStore.size_blocks_modifyBlock _ _ _
  · rfl

theorem size_blocks_clearMark (a : Allocator) (b : BlockId) :
    (a.clearMark b).store.blocks.size = a.store.blocks.size := by
  refine size_blocks_mapStore (fun s => ?_) a
  unfold BlockStore.clearMark
  split_ifs
  · exact BlockStore.size_blocks_modifyBlock _ _ _
  · rfl

theorem size_blocks_release (a : Allocator) (b : BlockId) (n : Nat) :
    (a.release b n).store.blocks.size = a.store.blocks.size := by
  cases a with
  | direct s => exact BlockStore.size_blocks_free _ _
  | shielded q =>
    have henter : (q.enter b n).inner.blocks.size = q.inner.blocks.size :=
      BlockStore.size_blocks_modifyBlock _ _ _
    exact (q.enter b n).retains_releaseOldest.size_blocks.trans henter

/-! ### Giving back -/

/-- Giving back a block that is out leaves the memory clean. -/
theorem Clean.release {tidy : Bool} (ha : a.Clean) (hb : a.Backs tidy b size) :
    (a.release b size).Clean := by
  cases a with
  | direct s => trivial
  | shielded q =>
    obtain ⟨hclean, hreleased⟩ := ha
    have henter : (q.enter b size).Clean := hclean.enter hreleased hb.1.isLive hb.2.1
    refine ⟨henter.releaseOldest, ?_⟩
    show (q.enter b size).releaseOldest.released ≤ (q.enter b size).releaseOldest.freed.size
    have hle : (q.enter b size).released ≤ (q.enter b size).freed.size := by
      show q.released ≤ (q.freed.push _).size
      rw [Array.size_push]
      omega
    exact Quarantine.released_le_releaseOldest hle

end Allocator

end HybridHeap.Memory
