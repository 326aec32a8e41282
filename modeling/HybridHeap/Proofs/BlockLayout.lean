import HybridHeap.Proofs.Storage

/-!
# Where blocks lie

The blocks that are out do not overlap, and the range of addresses ever handed out covers them.
Every operation keeps this as long as further blocks are placed beside those that are out, and while
it holds an address is found in exactly the block that contains it: the block that starts last at or
below the address is the only one to ask.

The places that the system has when the program runs ascend, so that no block ever overlaps another,
whether it is out or not. An allocator keeps this whatever is asked of it.
-/

namespace HybridHeap.Memory

namespace Block

/-- The address of the first byte. -/
def start (x : Block) : Nat := x.base

/-- The address behind the last byte. -/
def stop (x : Block) : Nat := x.base + x.size

/-- The block contains the address. -/
def Contains (x : Block) (a : Nat) : Prop := x.start ≤ a ∧ a < x.stop

/-- No address is in both blocks. -/
def Apart (x y : Block) : Prop := x.stop ≤ y.start ∨ y.stop ≤ x.start

/-- The blocks take up the same addresses. -/
def SamePlace (x y : Block) : Prop := x.start = y.start ∧ x.size = y.size

variable {x y : Block}

theorem stop_eq (x : Block) : x.stop = x.start + x.size := rfl

theorem SamePlace.stop (h : x.SamePlace y) : x.stop = y.stop := by
  rw [stop_eq, stop_eq, h.1, h.2]

end Block

namespace BlockStore

variable {s : BlockStore} {a : Nat} {b c : BlockId} {x y : Block}

/-! ## The block that starts last at or below an address -/

/-- A numbered block that is out and starts at or below the address. -/
def Starts (a : Nat) (block : Block × BlockId) : Prop :=
  block.1.released = false ∧ block.1.start ≤ a

/-- The best of a number of blocks for an address: the one of those that start at or below it that
starts last. -/
def Best (a : Nat) (blocks : List (Block × BlockId)) : Option (BlockId × Block) → Prop
  | none => ∀ block ∈ blocks, ¬ Starts a block
  | some (b, x) => (x, b) ∈ blocks ∧ Starts a (x, b) ∧
      ∀ block ∈ blocks, Starts a block → block.1.start ≤ x.start

/-- When a block takes the place of the best one so far. -/
theorem replaces_iff {best : Option (BlockId × Block)} :
    (!x.released && decide (x.base ≤ a) && best.all fun (_, other) => other.base ≤ x.base) = true ↔
      Starts a (x, b) ∧ ∀ other ∈ best, other.2.start ≤ x.start := by
  simp only [Bool.and_eq_true, Bool.not_eq_true', decide_eq_true_eq, Option.all_eq_true]
  exact Iff.rfl

/-- The search over all blocks finds the best of them. -/
theorem best_floor? (s : BlockStore) (a : Nat) :
    Best a s.blocks.toList.zipIdx (s.floor? a) := by
  unfold floor?
  -- What has been found after each block is the best of those seen.
  induction s.blocks.toList.zipIdx using List.reverseRecOn with
  | nil => exact fun _ hx => absurd hx List.not_mem_nil
  | append_singleton blocks block ih =>
    obtain ⟨x, b⟩ := block
    rw [List.foldl_append, List.foldl_cons, List.foldl_nil]
    generalize blocks.foldl _ none = best at ih
    dsimp only
    by_cases hreplaces : Starts a (x, b) ∧ ∀ other ∈ best, other.2.start ≤ x.start
    · rw [if_pos (replaces_iff.2 hreplaces)]
      obtain ⟨hstarts, hlast⟩ := hreplaces
      refine ⟨List.mem_append_right _ List.mem_cons_self, hstarts, fun block hblock hstarts' => ?_⟩
      obtain hblock | hblock := List.mem_append.1 hblock
      · cases best with
        | none => exact absurd hstarts' (ih block hblock)
        | some other => exact Nat.le_trans (ih.2.2 block hblock hstarts') (hlast other rfl)
      · rw [List.mem_singleton.1 hblock]
    · rw [if_neg fun h => hreplaces (replaces_iff.1 h)]
      cases best with
      | none =>
        intro block hblock hstarts
        obtain hblock | hblock := List.mem_append.1 hblock
        · exact ih block hblock hstarts
        · rw [List.mem_singleton.1 hblock] at hstarts
          exact hreplaces ⟨hstarts, fun _ hother => by cases hother⟩
      | some other =>
        obtain ⟨hmem, hother, hlast⟩ := ih
        refine ⟨List.mem_append_left _ hmem, hother, fun block hblock hstarts => ?_⟩
        obtain hblock | hblock := List.mem_append.1 hblock
        · exact hlast block hblock hstarts
        · rw [List.mem_singleton.1 hblock] at hstarts ⊢
          by_contra hlater
          refine hreplaces ⟨hstarts, fun other' hother' => ?_⟩
          obtain rfl := Option.some.inj hother'
          exact Nat.le_of_lt (Nat.lt_of_not_le hlater)

/-- A block is out exactly if it is among the numbered blocks and has not been given back. -/
theorem live?_eq_some_iff :
    s.live? b = some x ↔ (x, b) ∈ s.blocks.toList.zipIdx ∧ x.released = false := by
  unfold live?
  rw [List.mk_mem_zipIdx_iff_getElem?, Array.getElem?_toList, Option.filter_eq_some_iff,
    Bool.not_eq_true']

/-! ## The layout -/

/-- The blocks that are out are not empty, lie in the range handed out and do not overlap. -/
structure Laid (s : BlockStore) : Prop where
  positive : ∀ {b x}, s.live? b = some x → 0 < x.size
  within : ∀ {b x}, s.live? b = some x → x.start ≥ s.least ∧ x.stop ≤ s.greatest + 1
  apart : ∀ {b c x y}, s.live? b = some x → s.live? c = some y → b ≠ c → x.Apart y

/-- An address is found in the block that contains it. -/
theorem Laid.baseOf?_eq_some_iff (hs : s.Laid) :
    s.baseOf? a = some b ↔ ∃ x, s.live? b = some x ∧ x.Contains a := by
  have hbest := s.best_floor? a
  constructor
  · intro hfound
    unfold baseOf? at hfound
    split_ifs at hfound
    obtain ⟨⟨c, x⟩, hfloor, hfits⟩ := Option.bind_eq_some_iff.1 hfound
    rw [hfloor] at hbest
    obtain ⟨hmem, ⟨hout, hbase⟩, -⟩ := hbest
    dsimp only at hfits
    split_ifs at hfits with hlt
    obtain rfl := Option.some.inj hfits
    exact ⟨x, live?_eq_some_iff.2 ⟨hmem, hout⟩, hbase, hlt⟩
  · rintro ⟨x, hb, hcontains⟩
    obtain ⟨hmem, hout⟩ := live?_eq_some_iff.1 hb
    obtain ⟨hleast, hgreatest⟩ := hs.within hb
    have hstarts : Starts a (x, b) := ⟨hout, hcontains.1⟩
    have hrange : ¬ (a < s.least || s.greatest < a) = true := by
      unfold Block.Contains at hcontains
      simp only [Bool.or_eq_true, decide_eq_true_eq, not_or, Nat.not_lt]
      constructor <;> omega
    unfold baseOf?
    rw [if_neg hrange]
    cases hfloor : s.floor? a with
    | none =>
      rw [hfloor] at hbest
      exact absurd hstarts (hbest _ hmem)
    | some best =>
      obtain ⟨c, y⟩ := best
      rw [hfloor] at hbest
      obtain ⟨hmem', ⟨hout', hbase'⟩, hlast⟩ := hbest
      have hc : s.live? c = some y := live?_eq_some_iff.2 ⟨hmem', hout'⟩
      have hlast : x.start ≤ y.start := hlast _ hmem hstarts
      -- A block that starts behind `x`, yet not behind the address, would overlap it.
      obtain rfl : b = c := by
        by_contra hne
        have hapart := hs.apart hb hc hne
        have hpositive := hs.positive hc
        have hstop := y.stop_eq
        have hbase' : y.start ≤ a := hbase'
        unfold Block.Contains at hcontains
        unfold Block.Apart at hapart
        omega
      obtain rfl : x = y := Option.some.inj (hb.symm.trans hc)
      exact if_pos hcontains.2

/-- An address that no block contains is found in none. -/
theorem Laid.baseOf?_eq_none_iff (hs : s.Laid) :
    s.baseOf? a = none ↔ ∀ b x, s.live? b = some x → ¬ x.Contains a := by
  rw [Option.eq_none_iff_forall_ne_some]
  simp only [ne_eq, hs.baseOf?_eq_some_iff, not_exists, not_and]

/-! ## Marks -/

/-- Set or clear the mark of a block, if there is such a block. -/
def stamp (s : BlockStore) (b : BlockId) (on : Bool) : BlockStore :=
  if s.isLive b then s.modifyBlock b fun block => { block with marked := on } else s

theorem setMark_eq_stamp (s : BlockStore) (b : BlockId) : s.setMark b = s.stamp b true := rfl

theorem clearMark_eq_stamp (s : BlockStore) (b : BlockId) : s.clearMark b = s.stamp b false := rfl

/-- The mark is the only thing that changes, and on one block only. -/
theorem live?_stamp (s : BlockStore) (b c : BlockId) (on : Bool) :
    (s.stamp c on).live? b =
      if b = c then (s.live? b).map fun block => { block with marked := on } else s.live? b := by
  unfold stamp
  split
  · exact live?_modifyBlock (f := fun block => { block with marked := on }) (fun _ => rfl) s b c
  · rename_i hlive
    split_ifs with heq
    · subst heq
      unfold isLive at hlive
      rw [Bool.not_eq_true, Option.isSome_eq_false_iff, Option.isNone_iff_eq_none] at hlive
      rw [hlive]
      rfl
    · rfl

/-- A block that is there is marked or not as it was when its mark last changed. -/
theorem isMarked_stamp (s : BlockStore) (b c : BlockId) (on : Bool) :
    (s.stamp c on).isMarked b = if b = c then s.isLive b && on else s.isMarked b := by
  unfold isMarked isLive
  rw [live?_stamp]
  split_ifs
  · cases s.live? b <;> simp
  · rfl

/-- What is not changed of a block leaves its mark. -/
theorem isMarked_of_live?_eq {s' : BlockStore} (hlive : s'.live? b = s.live? b) :
    s'.isMarked b = s.isMarked b := by
  unfold isMarked
  rw [hlive]

/-- A change of blocks besides their marks leaves those. -/
theorem isMarked_modifyBlock {f : Block → Block} (hrel : ∀ x, (f x).released = x.released)
    (hmarked : ∀ x, (f x).marked = x.marked) (s : BlockStore) (b c : BlockId) :
    (s.modifyBlock c f).isMarked b = s.isMarked b := by
  unfold isMarked
  rw [live?_modifyBlock hrel]
  split_ifs
  · rw [Option.any_map]
    exact congrArg (fun p => (s.live? b).any p) (funext hmarked)
  · rfl

/-! ## What keeps the layout -/

theorem live?_empty (limit : Option Nat) (b : BlockId) : (empty limit).live? b = none := rfl

theorem laid_empty (limit : Option Nat) : (empty limit).Laid := by
  constructor <;> intros <;> simp_all [live?_empty]

/-- Changes that let no block out and move none keep the layout. -/
theorem Laid.of_live? {s' : BlockStore} (hs : s.Laid) (hleast : s'.least = s.least)
    (hgreatest : s'.greatest = s.greatest)
    (hlive : ∀ {b x}, s'.live? b = some x → ∃ y, s.live? b = some y ∧ x.SamePlace y) :
    s'.Laid where
  positive hb := by
    obtain ⟨y, hy, -, hsize⟩ := hlive hb
    rw [hsize]
    exact hs.positive hy
  within hb := by
    obtain ⟨y, hy, hplace⟩ := hlive hb
    rw [hleast, hgreatest, hplace.1, hplace.stop]
    exact hs.within hy
  apart hb hc hne := by
    obtain ⟨y, hy, hplace⟩ := hlive hb
    obtain ⟨z, hz, hplace'⟩ := hlive hc
    unfold Block.Apart
    rw [hplace.1, hplace.stop, hplace'.1, hplace'.stop]
    exact hs.apart hy hz hne

/-- Changing a block without moving it keeps the layout. -/
theorem Laid.modifyBlock {f : Block → Block} (hs : s.Laid) (c : BlockId)
    (hrel : ∀ x, (f x).released = x.released) (hplace : ∀ x, (f x).SamePlace x) :
    (s.modifyBlock c f).Laid := by
  refine hs.of_live? rfl rfl fun {b x} hb => ?_
  rw [live?_modifyBlock hrel] at hb
  split_ifs at hb
  · obtain ⟨y, hy, rfl⟩ := Option.map_eq_some_iff.1 hb
    exact ⟨y, hy, hplace y⟩
  · exact ⟨x, hb, rfl, rfl⟩

/-- Setting or clearing a mark keeps the layout. -/
theorem Laid.stamp (hs : s.Laid) (c : BlockId) (on : Bool) : (s.stamp c on).Laid := by
  unfold BlockStore.stamp
  split_ifs
  · exact hs.modifyBlock c (fun _ => rfl) fun _ => ⟨rfl, rfl⟩
  · exact hs

/-- A block that was given back is not there. -/
theorem live?_free_self (s : BlockStore) (b : BlockId) : (s.free b).live? b = none := by
  unfold free
  cases hb : s.live? b with
  | none => exact hb
  | some x =>
    show ((s.modifyBlock b _).blocks[b]?).filter _ = _
    rw [getElem?_modifyBlock, if_pos rfl]
    cases s.blocks[b]? <;> rfl

@[simp] theorem least_free (s : BlockStore) (b : BlockId) : (s.free b).least = s.least := by
  unfold free
  split <;> rfl

@[simp] theorem greatest_free (s : BlockStore) (b : BlockId) :
    (s.free b).greatest = s.greatest := by
  unfold free
  split <;> rfl

/-- A block that is there after one was given back was there before. -/
theorem live?_of_live?_free (hb : (s.free c).live? b = some x) : b ≠ c ∧ s.live? b = some x := by
  have hne : b ≠ c := by
    rintro rfl
    rw [live?_free_self] at hb
    cases hb
  rw [live?_free hne] at hb
  exact ⟨hne, hb⟩

/-- Giving a block back keeps the layout. -/
theorem Laid.free (hs : s.Laid) (c : BlockId) : (s.free c).Laid :=
  hs.of_live? (s.least_free c) (s.greatest_free c) fun hb =>
    ⟨_, (live?_of_live?_free hb).2, rfl, rfl⟩

/-- The block that a further block of the given size is. -/
def furtherBlock (base size : Nat) : Block :=
  { base, size, marked := false, released := false, bytes := Bytes.uniform 0 }

/-- A block that is there after a further one was handed out is that one or was there before. -/
theorem live?_push_cases {base size : Nat} (hb : (s.push base size).live? b = some x) :
    b = s.blocks.size ∧ x = furtherBlock base size ∨ s.live? b = some x := by
  unfold live? push at hb
  rw [Array.getElem?_push] at hb
  split_ifs at hb with heq
  · exact .inl ⟨heq, (Option.some.inj hb).symm⟩
  · exact .inr hb

/-- The further block is there. -/
theorem live?_push_self (s : BlockStore) (base size : Nat) :
    (s.push base size).live? s.blocks.size = some (furtherBlock base size) := by
  unfold live? push
  rw [Array.getElem?_push, if_pos rfl]
  rfl

/-- The further block lies in the range handed out. -/
theorem within_push_self (s : BlockStore) (base size : Nat) :
    (furtherBlock base size).start ≥ (s.push base size).least ∧
      (furtherBlock base size).stop ≤ (s.push base size).greatest + 1 := by
  have hleast : ((s.push base size).least : Nat) = min (s.least : Nat) base := rfl
  have hgreatest : ((s.push base size).greatest : Nat) =
      max (s.greatest : Nat) (base + size - 1) := rfl
  have hstart : (furtherBlock base size).start = base := rfl
  have hstop : (furtherBlock base size).stop = base + size := rfl
  rw [hleast, hgreatest, hstart, hstop]
  constructor <;> omega

/-- The others stay in it. -/
theorem within_push {base size : Nat} (hx : x.start ≥ s.least ∧ x.stop ≤ s.greatest + 1) :
    x.start ≥ (s.push base size).least ∧ x.stop ≤ (s.push base size).greatest + 1 := by
  have hleast : ((s.push base size).least : Nat) = min (s.least : Nat) base := rfl
  have hgreatest : ((s.push base size).greatest : Nat) =
      max (s.greatest : Nat) (base + size - 1) := rfl
  rw [hleast, hgreatest]
  constructor <;> omega

/-- A further block beside those that are out keeps the layout. -/
theorem Laid.push (hs : s.Laid) {base size : Nat} (hsize : 0 < size)
    (hfresh : ∀ {b x}, s.live? b = some x → (furtherBlock base size).Apart x) :
    (s.push base size).Laid where
  positive hb := by
    obtain ⟨-, rfl⟩ | hb := live?_push_cases hb
    · exact hsize
    · exact hs.positive hb
  within hb := by
    obtain ⟨-, rfl⟩ | hb := live?_push_cases hb
    · exact within_push_self s base size
    · exact within_push (hs.within hb)
  apart hb hc hne := by
    obtain ⟨rfl, rfl⟩ | hb := live?_push_cases hb <;>
      obtain ⟨rfl, rfl⟩ | hc := live?_push_cases hc
    · exact absurd rfl hne
    · exact hfresh hc
    · exact (hfresh hb).symm
    · exact hs.apart hb hc hne

/-! ## Ascending places -/

/-- No block is empty, each lies in the range handed out, and each begins behind those that were
handed out before it. -/
structure Ascending (s : BlockStore) : Prop where
  positive : ∀ {b : BlockId} {x : Block}, s.blocks[b]? = some x → 0 < x.size
  within : ∀ {b : BlockId} {x : Block}, s.blocks[b]? = some x →
    x.start ≥ s.least ∧ x.stop ≤ s.greatest + 1
  ordered : ∀ {b c : BlockId} {x y : Block}, s.blocks[b]? = some x → s.blocks[c]? = some y →
    b < c → x.stop ≤ y.start

/-- Blocks whose places ascend do not overlap. -/
theorem Ascending.laid (hs : s.Ascending) : s.Laid where
  positive hb := hs.positive (outstanding_of_live? hb).1
  within hb := hs.within (outstanding_of_live? hb).1
  apart hb hc hne := by
    have hb := (outstanding_of_live? hb).1
    have hc := (outstanding_of_live? hc).1
    obtain hlt | hlt := Nat.lt_or_gt_of_ne hne
    · exact .inl (hs.ordered hb hc hlt)
    · exact .inr (hs.ordered hc hb hlt)

theorem ascending_empty (limit : Option Nat) : (empty limit).Ascending := by
  constructor <;> intros <;> simp_all [empty]

/-- Changes that move no block leave the places ascending. -/
theorem Ascending.of_getElem? {s' : BlockStore} (hs : s.Ascending) (hleast : s'.least = s.least)
    (hgreatest : s'.greatest = s.greatest)
    (hblocks : ∀ {b : BlockId} {x : Block}, s'.blocks[b]? = some x →
      ∃ y, s.blocks[b]? = some y ∧ x.SamePlace y) : s'.Ascending where
  positive hb := by
    obtain ⟨y, hy, -, hsize⟩ := hblocks hb
    rw [hsize]
    exact hs.positive hy
  within hb := by
    obtain ⟨y, hy, hplace⟩ := hblocks hb
    rw [hleast, hgreatest, hplace.1, hplace.stop]
    exact hs.within hy
  ordered hb hc hlt := by
    obtain ⟨y, hy, hplace⟩ := hblocks hb
    obtain ⟨z, hz, hplace'⟩ := hblocks hc
    rw [hplace.stop, hplace'.1]
    exact hs.ordered hy hz hlt

/-- Changing a block without moving it leaves the places ascending. -/
theorem Ascending.modifyBlock {f : Block → Block} (hs : s.Ascending) (c : BlockId)
    (hplace : ∀ x, (f x).SamePlace x) : (s.modifyBlock c f).Ascending := by
  refine hs.of_getElem? rfl rfl fun {b x} hb => ?_
  rw [getElem?_modifyBlock] at hb
  split_ifs at hb
  · obtain ⟨y, hy, rfl⟩ := Option.map_eq_some_iff.1 hb
    exact ⟨y, hy, hplace y⟩
  · exact ⟨x, hb, rfl, rfl⟩

/-- Setting or clearing a mark leaves the places ascending. -/
theorem Ascending.stamp (hs : s.Ascending) (c : BlockId) (on : Bool) :
    (s.stamp c on).Ascending := by
  unfold BlockStore.stamp
  split_ifs
  · exact hs.modifyBlock c fun _ => ⟨rfl, rfl⟩
  · exact hs

/-- Giving a block back leaves the places ascending. -/
theorem Ascending.free (hs : s.Ascending) (c : BlockId) : (s.free c).Ascending := by
  unfold BlockStore.free
  split
  · exact hs
  · have hmoved := hs.modifyBlock c (f := fun block => { block with released := true })
      fun _ => ⟨rfl, rfl⟩
    exact ⟨hmoved.positive, hmoved.within, hmoved.ordered⟩

/-- The next place is behind all blocks. -/
theorem Ascending.le_nextPlace (hs : s.Ascending) {size : Nat} {base : Address}
    (hplace : s.nextPlace size = some base) {b : BlockId} {x : Block} (hb : s.blocks[b]? = some x) :
    x.stop ≤ (furtherBlock base size).start := by
  have hlt : b < s.blocks.size := (Array.getElem?_eq_some_iff.1 hb).1
  obtain ⟨last, hlast⟩ : ∃ last, s.blocks[s.blocks.size - 1]? = some last :=
    ⟨_, Array.getElem?_eq_getElem (Nat.sub_lt (Nat.zero_lt_of_lt hlt) Nat.one_pos)⟩
  have hbehind : last.stop ≤ (furtherBlock base size).start := by
    unfold nextPlace at hplace
    rw [Array.back?_eq_getElem?, hlast] at hplace
    split_ifs at hplace
    obtain rfl := Option.some.inj hplace
    show last.stop ≤ (last.stop + gap + 15) / 16 * 16
    omega
  obtain hbefore | heq := Nat.lt_or_ge b (s.blocks.size - 1)
  · have hordered := hs.ordered hb hlast hbefore
    have hstop := last.stop_eq
    omega
  · obtain rfl : b = s.blocks.size - 1 := Nat.le_antisymm (Nat.le_sub_one_of_lt hlt) heq
    obtain rfl : x = last := Option.some.inj (hb.symm.trans hlast)
    exact hbehind

/-- A further block at the next place leaves the places ascending. -/
theorem Ascending.push (hs : s.Ascending) {base size : Nat} (hsize : 0 < size)
    (hplace : s.nextPlace size = some base) : (s.push base size).Ascending := by
  have hcases : ∀ {b x}, (s.push base size).blocks[b]? = some x →
      b = s.blocks.size ∧ x = furtherBlock base size ∨ s.blocks[b]? = some x := by
    intro b x hb
    unfold BlockStore.push at hb
    rw [Array.getElem?_push] at hb
    split_ifs at hb with heq
    · exact .inl ⟨heq, (Option.some.inj hb).symm⟩
    · exact .inr hb
  constructor
  · intro b x hb
    obtain ⟨-, rfl⟩ | hb := hcases hb
    · exact hsize
    · exact hs.positive hb
  · intro b x hb
    obtain ⟨-, rfl⟩ | hb := hcases hb
    · exact within_push_self s base size
    · exact within_push (hs.within hb)
  · intro b c x y hb hc hlt
    have hc' : c < s.blocks.size + 1 := by
      have hc := (Array.getElem?_eq_some_iff.1 hc).1
      rwa [size_blocks_push] at hc
    obtain ⟨rfl, -⟩ | hb := hcases hb
    · exact absurd hlt (Nat.not_lt.2 (Nat.le_of_lt_succ hc'))
    · obtain ⟨-, rfl⟩ | hc := hcases hc
      · exact hs.le_nextPlace hplace hb
      · exact hs.ordered hb hc hlt

end BlockStore

/-! ## The allocator -/

namespace Quarantine

variable {q : Quarantine}

/-- Giving the oldest blocks back leaves the places ascending. -/
theorem ascending_releaseOldest (hq : q.inner.Ascending) : q.releaseOldest.inner.Ascending := by
  induction q using releaseOldest.induct with
  | case1 q h oldest isKnown ih =>
    rw [releaseOldest, dif_pos h]
    exact ih (hq.free _)
  | case2 q h =>
    rw [releaseOldest, dif_neg h]
    exact hq

end Quarantine

namespace Allocator

variable {a : Allocator} {tidy : Bool} {b c : BlockId} {size : Nat}

/-- The places of the blocks that were handed out ascend. -/
def Laid (a : Allocator) : Prop := a.store.Ascending

theorem laid_new (limit quarantine : Option Nat) : (Allocator.new limit quarantine).Laid := by
  cases quarantine <;> exact BlockStore.ascending_empty limit

/-- A change of the store that leaves the places ascending. -/
theorem Laid.mapStore {f : BlockStore → BlockStore} (ha : a.Laid)
    (hf : ∀ s : BlockStore, s.Ascending → (f s).Ascending) : (a.mapStore f).Laid := by
  cases a <;> exact hf _ ha

theorem Laid.assistOnly (ha : a.Laid) : a.assistOnly.Laid :=
  ha.mapStore fun _ hs => ⟨hs.positive, hs.within, hs.ordered⟩

theorem Laid.setMark (ha : a.Laid) (c : BlockId) : (a.setMark c).Laid :=
  ha.mapStore fun s hs => by
    rw [s.setMark_eq_stamp]
    exact hs.stamp c true

theorem Laid.clearMark (ha : a.Laid) (c : BlockId) : (a.clearMark c).Laid :=
  ha.mapStore fun s hs => by
    rw [s.clearMark_eq_stamp]
    exact hs.stamp c false

theorem Laid.poke (ha : a.Laid) (c : BlockId) (offset : Int) (byte : UInt8) :
    (a.poke c offset byte).Laid :=
  ha.mapStore fun _ hs => hs.modifyBlock c fun _ => ⟨rfl, rfl⟩

/-- Giving a block back moves none. -/
theorem Laid.release (ha : a.Laid) (c : BlockId) (n : Nat) : (a.release c n).Laid := by
  cases a with
  | direct s => exact BlockStore.Ascending.free ha c
  | shielded q =>
    have henter : (q.enter c n).inner.Ascending :=
      BlockStore.Ascending.modifyBlock ha c fun _ => ⟨rfl, rfl⟩
    exact Quarantine.ascending_releaseOldest henter

/-- A block that is handed out where the system has a place for it is behind all others. -/
theorem Laid.push (ha : a.Laid) {base : Address} (hbase : a.admit? size = some base) :
    (a.push base size).Laid := by
  have hplace : ∀ {s : BlockStore} {bytes : Nat} {place : Option Address},
      s.admit? bytes place = some base → place = some base := by
    intro s bytes place hadmit
    unfold BlockStore.admit? at hadmit
    split_ifs at hadmit
    exact hadmit
  cases a with
  | direct s => exact BlockStore.Ascending.push ha (Nat.le_max_right _ _) (hplace hbase)
  | shielded q =>
    obtain ⟨n, -, hadmit⟩ := Option.bind_eq_some_iff.1 hbase
    have hpositive : 0 < size + 2 * Quarantine.redzoneSize := by
      unfold Quarantine.redzoneSize
      omega
    have hpush : (q.inner.push base (size + 2 * Quarantine.redzoneSize)).Ascending :=
      BlockStore.Ascending.push ha hpositive (hplace hadmit)
    exact hpush.modifyBlock _ fun _ => ⟨rfl, rfl⟩

/-! ### Marks -/

/-- A further block leaves the marks of the others. -/
theorem isMarked_push (base : Address) (n : Nat) (hb : b < a.store.blocks.size) :
    (a.push base n).isMarked b = a.isMarked b := by
  cases a with
  | direct s => exact BlockStore.isMarked_of_live?_eq (BlockStore.live?_push base _ hb)
  | shielded q =>
    refine (BlockStore.isMarked_modifyBlock (fun _ => by rfl) (fun _ => by rfl) _ b _).trans ?_
    exact BlockStore.isMarked_of_live?_eq (BlockStore.live?_push base _ hb)

/-- A block that is there is marked once its mark has been set, and no other loses its mark. -/
theorem isMarked_setMark (a : Allocator) (b c : BlockId) :
    (a.setMark c).isMarked b = if b = c then a.isLive b else a.isMarked b := by
  have hstamp : ∀ s : BlockStore,
      (s.setMark c).isMarked b = if b = c then s.isLive b else s.isMarked b := fun s => by
    rw [s.setMark_eq_stamp, s.isMarked_stamp, Bool.and_true]
  cases a <;> exact hstamp _

/-- Clearing the mark of a block leaves those of the others. -/
theorem isMarked_clearMark (hbc : b ≠ c) (a : Allocator) :
    (a.clearMark c).isMarked b = a.isMarked b := by
  have hstamp : ∀ s : BlockStore, (s.clearMark c).isMarked b = s.isMarked b := fun s => by
    rw [s.clearMark_eq_stamp, s.isMarked_stamp, if_neg hbc]
  cases a <;> exact hstamp _

/-- Writing a byte leaves all marks. -/
theorem isMarked_poke (a : Allocator) (b c : BlockId) (offset : Int) (byte : UInt8) :
    (a.poke c offset byte).isMarked b = a.isMarked b := by
  cases a <;> exact BlockStore.isMarked_modifyBlock (fun _ => by rfl) (fun _ => by rfl) _ b c

/-- Giving a block back leaves the marks of those that are out as storage. -/
theorem Backs.isMarked_release (hb : a.Backs tidy b size) (hne : b ≠ c) (n : Nat) :
    (a.release c n).isMarked b = a.isMarked b := by
  cases a with
  | direct s => exact BlockStore.isMarked_of_live?_eq (BlockStore.live?_free hne)
  | shielded q =>
    obtain ⟨-, hfreed, -⟩ := hb
    have hout : ∀ f ∈ (q.enter c n).freed, f.block ≠ b := by
      intro f hf
      obtain hf | rfl := Array.mem_push.1 hf
      · exact hfreed f hf
      · exact hne.symm
    have hlive := (q.enter c n).retains_releaseOldest.live? b hout
    refine (BlockStore.isMarked_of_live?_eq hlive).trans ?_
    exact BlockStore.isMarked_modifyBlock (fun _ => by rfl) (fun _ => by rfl) _ b c

/-- A block that is out as storage is there. -/
theorem Backs.isLive (hb : a.Backs tidy b size) : a.isLive b = true := hb.lends.isLive

end Allocator

end HybridHeap.Memory
