import HybridHeap.Memory.Allocator
import HybridHeap.Kind
import HybridHeap.Proofs.Sums
import Mathlib.Tactic.SplitIfs

/-!
# Blocks behind nodes

What a node may rely on of the block that holds it: the block is out with the size it was asked for,
and behind a quarantine it is on no list of freed blocks and, unless something wrote around it,
looks as it did when it was handed out. Such a block keeps all this while other blocks are handed
out and given back, and giving it back itself finds no fault with it but damage. The bytes that the
store has outstanding are those of the blocks that are out.
-/

namespace HybridHeap.Memory

/-! ## The block store -/

namespace BlockStore

variable {s : BlockStore} {b : BlockId}

/-- Changing a block leaves the others. -/
theorem getElem?_modifyBlock (s : BlockStore) (b c : BlockId) (f : Block → Block) :
    (s.modifyBlock c f).blocks[b]? = if b = c then s.blocks[b]?.map f else s.blocks[b]? := by
  unfold modifyBlock
  rw [Array.getElem?_modify]
  by_cases hbc : b = c
  · simp [hbc]
  · simp [hbc, Ne.symm hbc]

/-- A block that is there has a number below the number of blocks. -/
theorem lt_size_of_live? {block : Block} (hb : s.live? b = some block) : b < s.blocks.size := by
  refine Nat.lt_of_not_ge fun hge => ?_
  unfold live? at hb
  rw [Array.getElem?_eq_none hge] at hb
  cases hb

/-- A further block leaves the others. -/
theorem live?_push (base : Address) (size : Nat) (hb : b < s.blocks.size) :
    (s.push base size).live? b = s.live? b := by
  unfold live? push
  rw [Array.getElem?_push, if_neg (Nat.ne_of_lt hb)]

/-- The further block is there. -/
theorem live?_push_size (s : BlockStore) (base : Address) (size : Nat) :
    ∃ block, (s.push base size).live? s.blocks.size = some block ∧ block.size = size := by
  unfold live? push
  rw [Array.getElem?_push, if_pos rfl]
  exact ⟨_, rfl, rfl⟩

/-- A change of a block that leaves it out and of one size does so to the block found. -/
theorem live?_modifyBlock {f : Block → Block} (hf : ∀ x, (f x).released = x.released)
    (s : BlockStore) (b c : BlockId) :
    (s.modifyBlock c f).live? b = if b = c then (s.live? b).map f else s.live? b := by
  unfold live?
  rw [getElem?_modifyBlock]
  split_ifs
  · cases s.blocks[b]? with
    | none => rfl
    | some block =>
      rw [Option.map_some, Option.filter_some, Option.filter_some, hf]
      split_ifs <;> rfl
  · rfl

/-- Giving a block back leaves the others. -/
theorem live?_free {c : BlockId} (hbc : b ≠ c) : (s.free c).live? b = s.live? b := by
  unfold free
  cases s.live? c with
  | none => rfl
  | some block =>
    show ((s.modifyBlock c _).blocks[b]?).filter _ = _
    rw [getElem?_modifyBlock, if_neg hbc]
    rfl

@[simp] theorem size_blocks_modifyBlock (s : BlockStore) (c : BlockId) (f : Block → Block) :
    (s.modifyBlock c f).blocks.size = s.blocks.size := by
  simp [modifyBlock]

@[simp] theorem size_blocks_push (s : BlockStore) (base : Address) (size : Nat) :
    (s.push base size).blocks.size = s.blocks.size + 1 := by
  simp [push]

@[simp] theorem size_blocks_free (s : BlockStore) (c : BlockId) :
    (s.free c).blocks.size = s.blocks.size := by
  unfold free
  cases s.live? c with
  | none => rfl
  | some block => simp [modifyBlock]

/-- Without a limit the store takes the place that the system has. -/
theorem admit?_of_limit (s : BlockStore) (hlimit : s.limit = none) (bytes : Nat)
    (place : Option Address) : s.admit? bytes place = place := by
  simp [admit?, exceedsLimit, hlimit]

/-- The system has a place for every block that is not too large for it. -/
theorem nextPlace_isSome (s : BlockStore) {size : Nat} (hsize : size ≤ systemLimit) :
    (s.nextPlace size).isSome := by
  unfold nextPlace
  rw [if_pos hsize]
  split <;> rfl

@[simp] theorem limit_free (s : BlockStore) (c : BlockId) : (s.free c).limit = s.limit := by
  unfold free
  split <;> rfl

/-- Giving a block back leaves its contents and those of the others. -/
@[simp] theorem bytesOf_free (s : BlockStore) (b c : BlockId) :
    (s.free c).bytesOf b = s.bytesOf b := by
  unfold free
  cases s.live? c with
  | none => rfl
  | some block =>
    show (((s.modifyBlock c _).blocks[b]?).map Block.bytes).getD _ = _
    rw [getElem?_modifyBlock]
    split_ifs
    · rw [Option.map_map]
      rfl
    · rfl

/-- Changing what is recorded of a block besides its contents leaves the contents of all. -/
theorem bytesOf_modifyBlock {f : Block → Block} (hf : ∀ x, (f x).bytes = x.bytes) (s : BlockStore)
    (b c : BlockId) : (s.modifyBlock c f).bytesOf b = s.bytesOf b := by
  unfold bytesOf
  rw [getElem?_modifyBlock]
  split_ifs
  · rw [Option.map_map]
    congr 2
    funext x
    exact hf x
  · rfl

/-- Changing the contents of a block leaves those of the others. -/
theorem bytesOf_modifyBytes {c : BlockId} (hbc : b ≠ c) (s : BlockStore) (f : Bytes → Bytes) :
    (s.modifyBytes c f).bytesOf b = s.bytesOf b := by
  unfold bytesOf modifyBytes
  rw [getElem?_modifyBlock, if_neg hbc]

/-- A further block leaves the contents of the others. -/
theorem bytesOf_push (base : Address) (size : Nat) (hb : b < s.blocks.size) :
    (s.push base size).bytesOf b = s.bytesOf b := by
  unfold bytesOf push
  rw [Array.getElem?_push, if_neg (Nat.ne_of_lt hb)]

@[simp] theorem isLive_modifyBytes (s : BlockStore) (b c : BlockId) (f : Bytes → Bytes) :
    (s.modifyBytes c f).isLive b = s.isLive b := by
  unfold isLive modifyBytes
  rw [live?_modifyBlock (f := fun block => { block with bytes := f block.bytes }) fun _ => rfl]
  split_ifs
  · rw [Option.isSome_map]
  · rfl

/-! ### Blocks of a known size -/

/-- A block of so many bytes is out. -/
def Lends (s : BlockStore) (b : BlockId) (size : Nat) : Prop :=
  ∃ block, s.live? b = some block ∧ block.size = size

theorem Lends.lt_size {size : Nat} (hb : s.Lends b size) : b < s.blocks.size := by
  obtain ⟨block, hlive, -⟩ := hb
  exact lt_size_of_live? hlive

theorem Lends.isLive {size : Nat} (hb : s.Lends b size) : s.isLive b = true := by
  obtain ⟨block, hlive, -⟩ := hb
  unfold BlockStore.isLive
  rw [hlive]
  rfl

/-- A further block leaves the others. -/
theorem Lends.push {size : Nat} (hb : s.Lends b size) (base : Address) (n : Nat) :
    (s.push base n).Lends b size := by
  have hlt := hb.lt_size
  obtain ⟨block, hlive, hsize⟩ := hb
  exact ⟨block, (live?_push base n hlt).trans hlive, hsize⟩

/-- A change of a block that leaves it out and of one size leaves what blocks are out. -/
theorem Lends.modifyBlock {size : Nat} {f : Block → Block} (hb : s.Lends b size) (c : BlockId)
    (hrel : ∀ x, (f x).released = x.released) (hsize : ∀ x, (f x).size = x.size) :
    (s.modifyBlock c f).Lends b size := by
  obtain ⟨block, hlive, hblock⟩ := hb
  unfold Lends
  rw [live?_modifyBlock hrel, hlive]
  split_ifs
  · exact ⟨f block, rfl, by rw [hsize, hblock]⟩
  · exact ⟨block, rfl, hblock⟩

/-! ### The bytes outstanding -/

/-- The bytes of a block that are outstanding: none once it has been given back. -/
def outstanding (block : Block) : Nat := if block.released then 0 else block.size

/-- The bytes outstanding are those of the blocks that are out. -/
def Balanced (s : BlockStore) : Prop :=
  s.bytesAllocated = (s.blocks.toList.map outstanding).sum

theorem balanced_empty (limit : Option Nat) : (empty limit).Balanced := rfl

/-- A further block adds its bytes. -/
theorem Balanced.push (hs : s.Balanced) (base : Address) (size : Nat) :
    (s.push base size).Balanced := by
  have hsum := sum_push s.blocks ⟨base, size, false, false, Bytes.uniform 0⟩ outstanding
  exact (congrArg (· + size) hs).trans hsum.symm

/-- A change of a block that leaves it out and of one size leaves the bytes outstanding. -/
theorem Balanced.modifyBlock {f : Block → Block} (hs : s.Balanced) (c : BlockId)
    (hrel : ∀ x, (f x).released = x.released) (hsize : ∀ x, (f x).size = x.size) :
    (s.modifyBlock c f).Balanced := by
  refine Eq.trans hs (sum_modify_of_eq _ _ fun x => ?_).symm
  unfold outstanding
  rw [hrel, hsize]

/-- A block that is out is one of the blocks, and its bytes are outstanding. -/
theorem outstanding_of_live? {block : Block} (hb : s.live? b = some block) :
    s.blocks[b]? = some block ∧ outstanding block = block.size := by
  obtain ⟨hblock, hout⟩ := Option.filter_eq_some_iff.1 hb
  refine ⟨hblock, if_neg ?_⟩
  simpa using hout

/-- Giving a block back takes its bytes away. -/
theorem Balanced.free (hs : s.Balanced) (b : BlockId) : (s.free b).Balanced := by
  unfold BlockStore.free
  cases hb : s.live? b with
  | none => exact hs
  | some block =>
    obtain ⟨hblock, hout⟩ := outstanding_of_live? hb
    have hsum := sum_modify hblock (fun x => { x with released := true }) outstanding
    have hnone : outstanding { block with released := true } = 0 := rfl
    rw [hout, hnone] at hsum
    show s.bytesAllocated - block.size = _
    rw [show s.bytesAllocated = _ from hs, ← Nat.add_zero (List.sum _), ← hsum,
      Nat.add_sub_cancel]
    rfl

end BlockStore

/-! ## What a fresh block looks like -/

namespace Bytes

/-- The bytes after writing one byte at successive offsets. -/
theorem read_writeRun (m : Bytes) (start count : Nat) (b : UInt8) (i : Nat) :
    (m.writeRun start count b).read i =
      if start ≤ i ∧ i < start + count then b else m.read i := by
  unfold writeRun
  induction count with
  | zero => rw [if_neg (by omega)]; rfl
  | succ k ih =>
    rw [List.range_succ, List.foldl_append, List.foldl_cons, List.foldl_nil, read_write, ih]
    split_ifs <;> first | rfl | omega

/-- The bytes after writing so many of the lowest bytes of a word. -/
theorem read_foldl_write (m : Bytes) (n count i : Nat) :
    ((List.range count).foldl (fun m i => m.write i (UInt8.ofNat (n >>> (8 * i)))) m).read i =
      if i < count then UInt8.ofNat (n >>> (8 * i)) else m.read i := by
  induction count with
  | zero => rw [if_neg (by omega)]; rfl
  | succ k ih =>
    rw [List.range_succ, List.foldl_append, List.foldl_cons, List.foldl_nil, read_write, ih]
    by_cases hi : i = k
    · subst hi
      simp
    · rw [if_neg hi]
      split_ifs <;> first | rfl | omega

/-- Eight bytes that are those of a word read as that word. -/
theorem readWord_eq {m : Bytes} {n : Nat} (hn : n ≤ Word.largest)
    (hm : ∀ i < 8, m.read i = UInt8.ofNat (n >>> (8 * i))) : m.readWord = n := by
  have hbyte : ∀ i < 8, (m.read i).toNat = n / 256 ^ i % 256 := by
    intro i hi
    rw [hm i hi, UInt8.toNat_ofNat', Nat.shiftRight_eq_div_pow, Nat.pow_mul]
  unfold readWord
  simp only [List.range, List.range.loop, List.foldr_cons, List.foldr_nil, hbyte 0 (by omega),
    hbyte 1 (by omega), hbyte 2 (by omega), hbyte 3 (by omega), hbyte 4 (by omega),
    hbyte 5 (by omega), hbyte 6 (by omega), hbyte 7 (by omega)]
  unfold Word.largest at hn
  omega

end Bytes

namespace Quarantine

/-- A block that looks as it was handed out has its size and both redzones. -/
theorem freshBytes_intact {bytes : Nat} (hfit : bytes + 2 * redzoneSize ≤ Word.largest) :
    (freshBytes bytes).readWord = bytes + 2 * redzoneSize ∧
      redzonesIntact (freshBytes bytes) bytes = true := by
  constructor
  · refine Bytes.readWord_eq hfit fun i hi => ?_
    unfold freshBytes Bytes.writeWord
    dsimp only
    rw [Bytes.read_writeRun, if_neg (by unfold redzoneSize; omega), Bytes.read_foldl_write,
      if_pos hi]
  · unfold redzonesIntact Bytes.runIs
    simp only [Bool.and_eq_true, List.all_eq_true, List.mem_range, beq_iff_eq]
    unfold freshBytes Bytes.writeWord
    constructor
    · intro i hi
      unfold redzoneSize at hi
      rw [Bytes.read_writeRun, if_neg (by unfold redzoneSize; omega), Bytes.read_foldl_write,
        if_neg (by omega), Bytes.read_writeRun, if_pos (by unfold redzoneSize; omega)]
    · intro i hi
      rw [Bytes.read_writeRun, if_pos (by omega)]

/-- The quarantine with a freed block of `bytes` bytes, before any goes back to the store. -/
def enter (q : Quarantine) (b : BlockId) (bytes : Nat) : Quarantine :=
  { q.poison b bytes with
    freed := q.freed.push ⟨b, bytes + 2 * redzoneSize⟩
    heldBytes := q.heldBytes + (bytes + 2 * redzoneSize)
    liveBytes := q.liveBytes - bytes
    strays := [] }

/-- What giving blocks held back to the store leaves as it was. -/
structure Retains (q q' : Quarantine) : Prop where
  freed : q'.freed = q.freed
  liveBytes : q'.liveBytes = q.liveBytes
  size_blocks : q'.inner.blocks.size = q.inner.blocks.size
  limit : q'.inner.limit = q.inner.limit
  bytesOf : ∀ b, q'.inner.bytesOf b = q.inner.bytesOf b
  balanced : q.inner.Balanced → q'.inner.Balanced
  live? : ∀ b, (∀ f ∈ q.freed, f.block ≠ b) → q'.inner.live? b = q.inner.live? b

/-- Giving the oldest blocks back touches only blocks that were freed. -/
theorem retains_releaseOldest (q : Quarantine) : q.Retains q.releaseOldest := by
  induction q using releaseOldest.induct with
  | case1 q h oldest isKnown ih =>
    rw [releaseOldest, dif_pos h]
    refine ⟨ih.freed, ih.liveBytes, ih.size_blocks.trans ?_, ih.limit.trans ?_,
      fun b => (ih.bytesOf b).trans ?_, fun hs => ih.balanced (hs.free _),
      fun b hb => (ih.live? b hb).trans ?_⟩
    · exact BlockStore.size_blocks_free _ _
    · exact BlockStore.limit_free _ _
    · exact BlockStore.bytesOf_free _ _ _
    · exact BlockStore.live?_free (hb _ (Array.getElem_mem _)).symm
  | case2 q h =>
    rw [releaseOldest, dif_neg h]
    exact ⟨rfl, rfl, rfl, rfl, fun _ => rfl, fun hs => hs, fun _ _ => rfl⟩

end Quarantine

/-! ## The allocator -/

namespace Allocator

variable {a : Allocator} {tidy : Bool} {b c : BlockId} {size : Nat}

/-- The bytes outstanding are those of the blocks that are out, and only blocks that were handed out
have been freed. -/
def Sound : Allocator → Prop
  | direct s => s.Balanced
  | shielded q => q.inner.Balanced ∧ ∀ f ∈ q.freed, f.block < q.inner.blocks.size

/-- The size of the block that is storage for so many bytes. -/
def footprint (a : Allocator) (bytes : Nat) : Nat := bytes + 2 * a.leading

/-- Whether a block is out as storage of so many bytes, and if `tidy` nothing wrote around it. -/
def Backs (tidy : Bool) : Allocator → BlockId → Nat → Prop
  | direct s, b, size => s.Lends b size
  | shielded q, b, size => q.inner.Lends b (size + 2 * Quarantine.redzoneSize) ∧
      (∀ f ∈ q.freed, f.block ≠ b) ∧ (tidy = true → q.inner.bytesOf b = Quarantine.freshBytes size)

/-- A block that is out as storage is there, with the redzones around the storage. -/
theorem Backs.lends (hb : a.Backs tidy b size) : a.store.Lends b (a.footprint size) := by
  cases a with
  | direct s => exact hb
  | shielded q => exact hb.1

/-- A block that is out has been handed out. -/
theorem Backs.lt_size (hb : a.Backs tidy b size) : b < a.store.blocks.size := hb.lends.lt_size

/-- A sound allocator has a balanced store. -/
theorem Sound.balanced (ha : a.Sound) : a.store.Balanced := by
  cases a with
  | direct s => exact ha
  | shielded q => exact ha.1

theorem sound_new (limit quarantine : Option Nat) : (Allocator.new limit quarantine).Sound := by
  cases quarantine with
  | none => exact BlockStore.balanced_empty limit
  | some budget =>
    exact ⟨BlockStore.balanced_empty limit, fun f hf => (Array.not_mem_empty f hf).elim⟩

/-- Telling the allocator that it never collects on its own hands out and frees nothing. -/
theorem Sound.assistOnly (ha : a.Sound) : a.assistOnly.Sound := by
  cases a <;> exact ha

/-! ### Handing out -/

/-- Handing out a block frees none. -/
theorem Sound.push (ha : a.Sound) (base : Address) (n : Nat) : (a.push base n).Sound := by
  cases a with
  | direct s => exact BlockStore.Balanced.push ha base _
  | shielded q =>
    obtain ⟨hbalanced, hfreed⟩ := ha
    refine ⟨(hbalanced.push base _).modifyBlock _ (fun _ => rfl) fun _ => rfl, fun f hf => ?_⟩
    simpa [Quarantine.push, BlockStore.modifyBytes] using Nat.lt_succ_of_lt (hfreed f hf)

/-- Handing out a block leaves the others. -/
theorem Backs.push (hb : a.Backs tidy b size) (base : Address) (n : Nat) :
    (a.push base n).Backs tidy b size := by
  have hlt := hb.lt_size
  cases a with
  | direct s => exact BlockStore.Lends.push hb base _
  | shielded q =>
    obtain ⟨hlends, hfreed, htidy⟩ := hb
    have hlt : b < q.inner.blocks.size := hlt
    refine ⟨?_, hfreed, fun ht => ?_⟩
    · exact (hlends.push base _).modifyBlock _ (fun _ => rfl) fun _ => rfl
    · show ((q.inner.push base _).modifyBytes _ _).bytesOf b = _
      rw [BlockStore.bytesOf_modifyBytes (Nat.ne_of_lt hlt), BlockStore.bytesOf_push base _ hlt]
      exact htidy ht

/-- The block handed out last is out. -/
theorem backs_push (ha : a.Sound) (tidy : Bool) (base : Address) {n : Nat} (hn : 0 < n) :
    (a.push base n).Backs tidy a.store.blocks.size n := by
  cases a with
  | direct s =>
    obtain ⟨block, hlive, hsize⟩ := s.live?_push_size base (BlockStore.sizeFor n)
    refine ⟨block, hlive, ?_⟩
    rw [hsize]
    unfold BlockStore.sizeFor
    omega
  | shielded q =>
    have hlends : (q.inner.push base (n + 2 * Quarantine.redzoneSize)).Lends q.inner.blocks.size
        (n + 2 * Quarantine.redzoneSize) := q.inner.live?_push_size base _
    refine ⟨?_, fun f hf => Nat.ne_of_lt (ha.2 f hf), fun _ => ?_⟩
    · exact hlends.modifyBlock _ (fun _ => rfl) fun _ => rfl
    · show ((q.inner.push base _).modifyBytes _ _).bytesOf q.inner.blocks.size = _
      unfold BlockStore.bytesOf BlockStore.modifyBytes
      rw [BlockStore.getElem?_modifyBlock, if_pos rfl]
      simp [BlockStore.push]

/-- The number of the block handed out last. -/
theorem lastBlock_push (a : Allocator) (base : Address) (n : Nat) :
    (a.push base n).lastBlock = a.store.blocks.size := by
  cases a <;> simp [lastBlock, push, store, Quarantine.push, BlockStore.modifyBytes]

/-- A block handed out adds its bytes to those outstanding. -/
theorem bytesAllocated_push (a : Allocator) (base : Address) {n : Nat} (hn : 0 < n) :
    (a.push base n).bytesAllocated = a.bytesAllocated + n := by
  cases a with
  | direct s =>
    show s.bytesAllocated + BlockStore.sizeFor n = _
    unfold BlockStore.sizeFor
    rw [Nat.max_eq_left hn]
    rfl
  | shielded q => rfl

/-! ### Marks and single bytes -/

/-- A change of the record of a block, besides whether it is out and its size, leaves what was freed
and the bytes outstanding. -/
theorem Sound.modifyBlock (ha : a.Sound) (c : BlockId) {f : Block → Block}
    (hrel : ∀ x, (f x).released = x.released) (hsize : ∀ x, (f x).size = x.size) :
    (a.mapStore (·.modifyBlock c f)).Sound := by
  cases a with
  | direct s => exact BlockStore.Balanced.modifyBlock ha c hrel hsize
  | shielded q =>
    obtain ⟨hbalanced, hfreed⟩ := ha
    refine ⟨hbalanced.modifyBlock c hrel hsize, fun x hx => ?_⟩
    show x.block < (q.inner.modifyBlock c f).blocks.size
    rw [BlockStore.size_blocks_modifyBlock]
    exact hfreed x hx

/-- A change of the record of a block, besides whether it is out, its size and its contents, leaves
what the blocks are storage for. -/
theorem Backs.modifyBlock (hb : a.Backs tidy b size) (c : BlockId) {f : Block → Block}
    (hrel : ∀ x, (f x).released = x.released) (hsize : ∀ x, (f x).size = x.size)
    (hbytes : ∀ x, (f x).bytes = x.bytes) : (a.mapStore (·.modifyBlock c f)).Backs tidy b size := by
  cases a with
  | direct s => exact BlockStore.Lends.modifyBlock hb c hrel hsize
  | shielded q =>
    obtain ⟨hlends, hfreed, htidy⟩ := hb
    exact ⟨hlends.modifyBlock c hrel hsize, hfreed, fun ht =>
      (BlockStore.bytesOf_modifyBlock hbytes _ _ _).trans (htidy ht)⟩

/-- Marking a block leaves what the blocks are storage for. -/
theorem Backs.setMark (hb : a.Backs tidy b size) (c : BlockId) :
    (a.setMark c).Backs tidy b size := by
  have hmark := hb.modifyBlock c (f := fun block => { block with marked := true }) (fun _ => rfl)
    (fun _ => rfl) fun _ => rfl
  cases a <;>
    · unfold Allocator.setMark mapStore BlockStore.setMark at *
      dsimp only at *
      split_ifs
      · exact hmark
      · exact hb

/-- Clearing the mark of a block leaves what the blocks are storage for. -/
theorem Backs.clearMark (hb : a.Backs tidy b size) (c : BlockId) :
    (a.clearMark c).Backs tidy b size := by
  have hmark := hb.modifyBlock c (f := fun block => { block with marked := false }) (fun _ => rfl)
    (fun _ => rfl) fun _ => rfl
  cases a <;>
    · unfold Allocator.clearMark mapStore BlockStore.clearMark at *
      dsimp only at *
      split_ifs
      · exact hmark
      · exact hb

@[simp] theorem bytesAllocated_setMark (a : Allocator) (c : BlockId) :
    (a.setMark c).bytesAllocated = a.bytesAllocated := by
  cases a with
  | direct s =>
    show (s.setMark c).bytesAllocated = _
    unfold BlockStore.setMark
    split_ifs <;> rfl
  | shielded q => rfl

@[simp] theorem bytesAllocated_clearMark (a : Allocator) (c : BlockId) :
    (a.clearMark c).bytesAllocated = a.bytesAllocated := by
  cases a with
  | direct s =>
    show (s.clearMark c).bytesAllocated = _
    unfold BlockStore.clearMark
    split_ifs <;> rfl
  | shielded q => rfl

/-- Marking a block frees none. -/
theorem Sound.setMark (ha : a.Sound) (c : BlockId) : (a.setMark c).Sound := by
  have hmark := ha.modifyBlock c (f := fun block => { block with marked := true }) (fun _ => rfl)
    fun _ => rfl
  cases a <;>
    · unfold Allocator.setMark mapStore BlockStore.setMark at *
      dsimp only at *
      split_ifs
      · exact hmark
      · exact ha

/-- Clearing the mark of a block frees none. -/
theorem Sound.clearMark (ha : a.Sound) (c : BlockId) : (a.clearMark c).Sound := by
  have hmark := ha.modifyBlock c (f := fun block => { block with marked := false }) (fun _ => rfl)
    fun _ => rfl
  cases a <;>
    · unfold Allocator.clearMark mapStore BlockStore.clearMark at *
      dsimp only at *
      split_ifs
      · exact hmark
      · exact ha

/-- Writing a byte frees no block. -/
theorem Sound.poke (ha : a.Sound) (c : BlockId) (offset : Int) (byte : UInt8) :
    (a.poke c offset byte).Sound :=
  ha.modifyBlock c (fun _ => rfl) fun _ => rfl

/-- Writing a byte leaves every block out, whatever it does to one of them. -/
theorem Backs.poke (hb : a.Backs false b size) (c : BlockId) (offset : Int) (byte : UInt8) :
    (a.poke c offset byte).Backs false b size := by
  cases a with
  | direct s => exact BlockStore.Lends.modifyBlock hb c (fun _ => rfl) fun _ => rfl
  | shielded q =>
    obtain ⟨hlends, hfreed, -⟩ := hb
    exact ⟨hlends.modifyBlock c (fun _ => rfl) fun _ => rfl, hfreed, fun ht => by cases ht⟩

/-- Writing a byte leaves the bytes outstanding. -/
theorem bytesAllocated_poke (a : Allocator) (c : BlockId) (offset : Int) (byte : UInt8) :
    (a.poke c offset byte).bytesAllocated = a.bytesAllocated := by
  cases a <;> rfl

/-! ### Giving back -/

/-- Giving a block back leaves the others. -/
theorem Backs.release (hb : a.Backs tidy b size) (hne : b ≠ c) (n : Nat) :
    (a.release c n).Backs tidy b size := by
  cases a with
  | direct s =>
    obtain ⟨block, hlive, hsize⟩ := hb
    exact ⟨block, (BlockStore.live?_free hne).trans hlive, hsize⟩
  | shielded q =>
    obtain ⟨hlends, hfreed, htidy⟩ := hb
    show (shielded (q.enter c n).releaseOldest).Backs tidy b size
    have hret := (q.enter c n).retains_releaseOldest
    have hout : ∀ f ∈ (q.enter c n).freed, f.block ≠ b := by
      intro f hf
      obtain hf | rfl := Array.mem_push.1 hf
      · exact hfreed f hf
      · exact hne.symm
    refine ⟨?_, fun f hf => hout f (hret.freed ▸ hf), fun ht => ?_⟩
    · have hlends : (q.enter c n).inner.Lends b _ :=
        hlends.modifyBlock c (fun _ => rfl) fun _ => rfl
      unfold BlockStore.Lends
      rw [hret.live? b hout]
      exact hlends
    · rw [hret.bytesOf]
      exact (BlockStore.bytesOf_modifyBytes hne _ _).trans (htidy ht)

/-- Giving back a block that is out frees a block that was handed out. -/
theorem Sound.release (ha : a.Sound) (hc : c < a.store.blocks.size) (n : Nat) :
    (a.release c n).Sound := by
  cases a with
  | direct s => exact BlockStore.Balanced.free ha c
  | shielded q =>
    obtain ⟨hbalanced, hfreed⟩ := ha
    have hret := (q.enter c n).retains_releaseOldest
    show (shielded (q.enter c n).releaseOldest).Sound
    refine ⟨hret.balanced (hbalanced.modifyBlock c (fun _ => rfl) fun _ => rfl), fun f hf => ?_⟩
    have hsize : (q.enter c n).inner.blocks.size = q.inner.blocks.size :=
      BlockStore.size_blocks_modifyBlock _ _ _
    rw [hret.freed] at hf
    rw [hret.size_blocks, hsize]
    obtain hf | rfl := Array.mem_push.1 hf
    · exact hfreed f hf
    · exact hc

/-- Giving a block back takes its bytes from those outstanding. -/
theorem Backs.bytesAllocated_release (hb : a.Backs tidy b size) :
    (a.release b size).bytesAllocated = a.bytesAllocated - size := by
  cases a with
  | direct s =>
    obtain ⟨block, hlive, rfl⟩ := hb
    show (s.free b).bytesAllocated = s.bytesAllocated - block.size
    unfold BlockStore.free
    rw [hlive]
  | shielded q => exact (Quarantine.retains_releaseOldest _).liveBytes

/-- Giving back a block that is out can only fail because it is damaged, and not even so if nothing
wrote around it. -/
theorem Backs.fault?_cases (hb : a.Backs tidy b size) (hbytes : size ≤ a.bytesAllocated)
    (hfit : size + 2 * Quarantine.redzoneSize ≤ Word.largest) :
    a.fault? b size = none ∨ tidy = false ∧ a.fault? b size = some .redzoneDamaged := by
  cases a with
  | direct s =>
    left
    show (if s.isLive b then none else some FreeFault.unknownBlock) = none
    rw [if_pos (BlockStore.Lends.isLive hb)]
  | shielded q =>
    have hdrawn : ¬ q.liveBytes < size := Nat.not_lt.2 hbytes
    show q.fault? b size = none ∨ _ ∧ q.fault? b size = _
    unfold Quarantine.fault? Quarantine.allocationSize? Word.fit?
    rw [if_pos hfit]
    dsimp only
    cases tidy with
    | false =>
      split_ifs
      · exact .inr ⟨rfl, rfl⟩
      · exact .inl rfl
    | true =>
      left
      obtain ⟨hword, hzones⟩ := Quarantine.freshBytes_intact hfit
      rw [hb.2.2 rfl, hword, hzones]
      simp [hdrawn]

/-! ### The limit -/

/-- Changing blocks of the store leaves its limit. -/
theorem limit_mapStore {f : BlockStore → BlockStore} (hf : ∀ s, (f s).limit = s.limit)
    (a : Allocator) : (a.mapStore f).store.limit = a.store.limit := by
  cases a <;> exact hf _

@[simp] theorem limit_setMark (a : Allocator) (c : BlockId) :
    (a.setMark c).store.limit = a.store.limit := by
  refine limit_mapStore (fun s => ?_) a
  unfold BlockStore.setMark
  split <;> rfl

@[simp] theorem limit_clearMark (a : Allocator) (c : BlockId) :
    (a.clearMark c).store.limit = a.store.limit := by
  refine limit_mapStore (fun s => ?_) a
  unfold BlockStore.clearMark
  split <;> rfl

@[simp] theorem limit_push (a : Allocator) (base : Address) (bytes : Nat) :
    (a.push base bytes).store.limit = a.store.limit := by
  cases a <;> rfl

@[simp] theorem limit_release (a : Allocator) (c : BlockId) (bytes : Nat) :
    (a.release c bytes).store.limit = a.store.limit := by
  cases a with
  | direct s => exact BlockStore.limit_free s c
  | shielded q => exact (Quarantine.retains_releaseOldest (q.enter c bytes)).limit

@[simp] theorem limit_afterFault (a : Allocator) (fault : FreeFault) (c : BlockId) (bytes : Nat) :
    (a.afterFault fault c bytes).store.limit = a.store.limit := by
  cases a <;> cases fault <;> rfl

/-- Without a limit a request is refused only if the system refuses a block of its size. -/
theorem admit?_isSome (hlimit : a.store.limit = none)
    (hsize : size + 2 * Quarantine.redzoneSize ≤ BlockStore.systemLimit) :
    (a.admit? size).isSome := by
  have hpositive : 0 < BlockStore.systemLimit := by decide
  cases a with
  | direct s =>
    show (s.admit? size (s.nextPlace (BlockStore.sizeFor size))).isSome
    rw [s.admit?_of_limit hlimit]
    exact s.nextPlace_isSome (by unfold BlockStore.sizeFor; omega)
  | shielded q =>
    have hword : BlockStore.systemLimit ≤ Word.largest := by decide
    have hfit : Quarantine.allocationSize? size = some (size + 2 * Quarantine.redzoneSize) :=
      if_pos (Nat.le_trans hsize hword)
    show ((Quarantine.allocationSize? size).bind fun n =>
      q.inner.admit? n (q.inner.nextPlace (size + 2 * Quarantine.redzoneSize))).isSome
    rw [hfit, Option.bind_some, q.inner.admit?_of_limit hlimit]
    exact q.inner.nextPlace_isSome hsize

/-- A request that is not refused leaves the store within its limit. The limit has to be below the
largest word, since the sum of which it is the bound is cut off there. -/
theorem bytesAllocated_add_le {base : Address} {limit : Nat} (hplace : a.admit? size = some base)
    (hlimit : a.store.limit = some limit) (hword : limit < Word.largest) :
    a.store.bytesAllocated + size ≤ limit := by
  have hfits : ∀ {s : BlockStore} {bytes : Nat} {place : Option Address},
      s.limit = some limit → s.admit? bytes place = some base →
        s.bytesAllocated + bytes ≤ limit := by
    intro s bytes place hs hs'
    have hle : ¬ s.exceedsLimit (BlockStore.sizeFor bytes) = true := by
      intro hexceeds
      rw [BlockStore.admit?, if_pos hexceeds] at hs'
      cases hs'
    have hsum : ¬ limit < min (s.bytesAllocated + max bytes 1) Word.largest := by
      simpa [BlockStore.exceedsLimit, hs, Word.addSaturating, BlockStore.sizeFor] using hle
    omega
  cases a with
  | direct s => exact hfits hlimit hplace
  | shielded q =>
    obtain ⟨bytes, hbytes, hplace⟩ := Option.bind_eq_some_iff.1 hplace
    have heq : bytes = size + 2 * Quarantine.redzoneSize := by
      unfold Quarantine.allocationSize? Word.fit? at hbytes
      split_ifs at hbytes
      exact (Option.some.inj hbytes).symm
    have hle : q.inner.bytesAllocated + bytes ≤ limit := hfits hlimit hplace
    show q.inner.bytesAllocated + size ≤ limit
    omega

end Allocator

end HybridHeap.Memory

namespace HybridHeap.Kind

/-- A node takes some storage. -/
theorem size_pos (k : Kind) : 0 < k.size := by cases k <;> decide

/-- The storage of a node fits in a word with its redzones. -/
theorem size_fits (k : Kind) : k.size + 2 * Memory.Quarantine.redzoneSize ≤ Word.largest := by
  cases k <;> decide

/-- The system does not refuse the storage of a node with its redzones. -/
theorem size_le_systemLimit (k : Kind) :
    k.size + 2 * Memory.Quarantine.redzoneSize ≤ Memory.BlockStore.systemLimit := by
  cases k <;> decide

end HybridHeap.Kind
