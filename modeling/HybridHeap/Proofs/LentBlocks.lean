import HybridHeap.Proofs.Storage

/-!
# The blocks that are out

A list of the blocks that the store has handed out and not got back, each with its size. A further
block goes to its end, a block that is given back leaves it, and nothing else changes it. The number
of blocks and the bytes outstanding are read off it.
-/

namespace HybridHeap.Memory.BlockStore

variable {s : BlockStore} {b : BlockId} {size : Nat}

/-- A numbered block with its size, unless it has been given back. -/
def lentBlock? : Block × BlockId → Option (BlockId × Nat) := fun (block, b) =>
  if block.released then none else some (b, block.size)

/-- The blocks that are out with their sizes, in the order in which they were handed out. -/
def lent (s : BlockStore) : List (BlockId × Nat) := s.blocks.toList.zipIdx.filterMap lentBlock?

theorem lentBlock?_eq_some {block : Block} {c : BlockId} :
    lentBlock? (block, c) = some (b, size) ↔
      block.released = false ∧ c = b ∧ block.size = size := by
  unfold lentBlock?
  cases hout : block.released <;> simp [hout]

/-- The list has the blocks that are out. -/
theorem mem_lent : (b, size) ∈ s.lent ↔ s.Lends b size := by
  unfold lent Lends live?
  simp only [List.mem_filterMap, Prod.exists, List.mk_mem_zipIdx_iff_getElem?,
    Array.getElem?_toList, lentBlock?_eq_some, Option.filter_eq_some_iff, Bool.not_eq_true']
  constructor
  · rintro ⟨block, c, hblock, hout, rfl, hsize⟩
    exact ⟨block, ⟨hblock, hout⟩, hsize⟩
  · rintro ⟨block, ⟨hblock, hout⟩, hsize⟩
    exact ⟨block, b, hblock, hout, rfl, hsize⟩

/-- No block is in the list twice. -/
theorem nodup_lent (s : BlockStore) : (s.lent.map Prod.fst).Nodup := by
  -- The numbers in the list are some of those of all blocks, in the same order.
  have hsub : (s.lent.map Prod.fst).Sublist (s.blocks.toList.zipIdx.map Prod.snd) := by
    unfold lent
    induction s.blocks.toList.zipIdx with
    | nil => exact List.nil_sublist _
    | cons x l ih =>
      obtain ⟨block, c⟩ := x
      cases hout : block.released
      · simpa [lentBlock?, hout] using ih
      · simpa [lentBlock?, hout] using ih.cons c
  refine hsub.nodup ?_
  rw [List.zipIdx_map_snd]
  exact List.nodup_range'

/-- As many blocks are out as the store counts. -/
theorem length_lent (s : BlockStore) : s.lent.length = s.blockCount := by
  unfold lent blockCount
  rw [List.length_filterMap_eq_countP, ← Array.countP_toList]
  conv_rhs => rw [← List.zipIdx_map_fst 0 s.blocks.toList, List.countP_map]
  refine List.countP_congr fun x _ => ?_
  obtain ⟨block, c⟩ := x
  unfold lentBlock?
  cases hout : block.released <;> simp [hout]

/-- The bytes of the blocks that are out are the bytes outstanding. -/
theorem Balanced.sum_lent (hs : s.Balanced) : (s.lent.map Prod.snd).sum = s.bytesAllocated := by
  rw [show s.bytesAllocated = _ from hs]
  unfold lent
  conv_rhs => rw [← List.zipIdx_map_fst 0 s.blocks.toList, List.map_map]
  induction s.blocks.toList.zipIdx with
  | nil => rfl
  | cons x l ih =>
    obtain ⟨block, c⟩ := x
    cases hout : block.released <;>
      simp [lentBlock?, outstanding, hout, ih]

/-- A further block goes to the end of the list. -/
theorem lent_push (s : BlockStore) (base : Address) (size : Nat) :
    (s.push base size).lent = s.lent ++ [(s.blocks.size, size)] := by
  unfold lent push
  rw [Array.toList_push, List.zipIdx_append, List.filterMap_append]
  simp [lentBlock?]

/-- A change of a block that leaves it out and of one size leaves the list. -/
theorem lent_modifyBlock {f : Block → Block} (hrel : ∀ x, (f x).released = x.released)
    (hsize : ∀ x, (f x).size = x.size) (s : BlockStore) (c : BlockId) :
    (s.modifyBlock c f).lent = s.lent := by
  have hentry : ∀ block i, lentBlock? (f block, i) = lentBlock? (block, i) := by
    intro block i
    show (if (f block).released then none else some (i, (f block).size)) = _
    rw [hrel, hsize]
    rfl
  unfold lent modifyBlock
  rw [Array.toList_modify]
  generalize 0 = start
  induction s.blocks.toList generalizing c start with
  | nil => rw [List.modify_nil]
  | cons block l ih =>
    cases c with
    | zero =>
      rw [List.modify_zero_cons, List.zipIdx_cons, List.zipIdx_cons, List.filterMap_cons,
        List.filterMap_cons, hentry]
    | succ c =>
      rw [List.modify_succ_cons, List.zipIdx_cons, List.zipIdx_cons, List.filterMap_cons,
        List.filterMap_cons, ih]

/-- Changing the contents of a block leaves the list. -/
theorem lent_modifyBytes (s : BlockStore) (c : BlockId) (f : Bytes → Bytes) :
    (s.modifyBytes c f).lent = s.lent :=
  lent_modifyBlock (f := fun block => { block with bytes := f block.bytes }) (fun _ => rfl)
    (fun _ => rfl) s c

/-- A block that is given back leaves the list. -/
theorem Lends.lent_free (hb : s.Lends b size) : s.lent.Perm ((b, size) :: (s.free b).lent) := by
  obtain ⟨block, hlive, rfl⟩ := hb
  obtain ⟨hblock, hout⟩ := Option.filter_eq_some_iff.1 hlive
  obtain ⟨hlt, hget⟩ := Array.getElem?_eq_some_iff.1 hblock
  -- The block stands between those before and those behind it, which keep their entries.
  obtain ⟨l₁, l₂, hl, hlength, hset⟩ :=
    @List.exists_of_set _ b { block with released := true } s.blocks.toList hlt
  rw [Array.getElem_toList, hget] at hl
  have hmodify : s.blocks.toList.modify b (fun block => { block with released := true }) =
      l₁ ++ { block with released := true } :: l₂ := by
    rw [List.modify_eq_set_getElem?, Array.getElem?_toList, hblock]
    exact hset
  have hfree : (s.free b).lent =
      (l₁ ++ { block with released := true } :: l₂).zipIdx.filterMap lentBlock? := by
    unfold free lent
    rw [hlive, ← hmodify, ← Array.toList_modify]
    rfl
  unfold lent at hfree ⊢
  rw [hfree, hl, List.zipIdx_append, List.zipIdx_append, List.filterMap_append,
    List.filterMap_append, List.zipIdx_cons, List.zipIdx_cons, List.filterMap_cons,
    List.filterMap_cons, Nat.zero_add, hlength]
  have hstays : lentBlock? (block, b) = some (b, block.size) :=
    lentBlock?_eq_some.2 ⟨by simpa using hout, rfl, rfl⟩
  have hleaves : lentBlock? ({ block with released := true }, b) = none := rfl
  rw [hstays, hleaves]
  exact List.perm_middle

end HybridHeap.Memory.BlockStore
