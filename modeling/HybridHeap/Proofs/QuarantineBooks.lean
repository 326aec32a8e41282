import HybridHeap.Proofs.CleanMemory
import HybridHeap.Proofs.LentBlocks

/-!
# Books on a quarantine

A caller that keeps books writes down which blocks it was handed, which it gave back and in what
order, and every byte that it wrote into an allocation. It gives a block back at most once and with
the size that it asked for, and writes only into allocations that are out or held back; nothing else
is asked of it. `Books.after` has the quarantine and the books after any number of deeds of such a
caller, whatever places the system has for its blocks.

`Accounted` says how the counters of the quarantine, the blocks that it holds back and those of the
store underneath are read off the books, and every deed keeps it. What is held back is the longest
end of the history of freed blocks that fits the budget (`fitting`).
-/

namespace HybridHeap.Memory

/-! ## The end of a row that fits -/

section Fitting

variable {α β : Type} {size : α → Nat} {budget : Nat} {l m : List α} {x : α}

/-- What is left of a row when members leave it from the front until the sizes of the rest add up to
at most the budget. -/
def fitting (size : α → Nat) (budget : Nat) : List α → List α
  | [] => []
  | x :: rest => if ((x :: rest).map size).sum ≤ budget then x :: rest else fitting size budget rest

/-- If the whole row fits, nothing leaves. -/
theorem fitting_of_le (hle : (l.map size).sum ≤ budget) : fitting size budget l = l := by
  cases l with
  | nil => rfl
  | cons x rest => exact if_pos hle

/-- If the row does not fit, its first member leaves. -/
theorem fitting_cons_of_lt (hlt : budget < ((x :: l).map size).sum) :
    fitting size budget (x :: l) = fitting size budget l :=
  if_neg (Nat.not_le_of_lt hlt)

/-- What is left is an end of the row. -/
theorem fitting_suffix (size : α → Nat) (budget : Nat) (l : List α) :
    fitting size budget l <:+ l := by
  induction l with
  | nil => exact List.suffix_rfl
  | cons x rest ih =>
    unfold fitting
    split_ifs
    · exact List.suffix_rfl
    · exact ih.trans (List.suffix_cons x rest)

/-- What is left fits. -/
theorem sum_fitting_le (size : α → Nat) (budget : Nat) (l : List α) :
    ((fitting size budget l).map size).sum ≤ budget := by
  induction l with
  | nil => exact Nat.zero_le _
  | cons x rest ih =>
    unfold fitting
    split_ifs with hle
    · exact hle
    · exact ih

/-- No longer end of the row fits. -/
theorem suffix_fitting (hm : m <:+ l) (hle : (m.map size).sum ≤ budget) :
    m <:+ fitting size budget l := by
  induction l with
  | nil => exact hm
  | cons x rest ih =>
    unfold fitting
    split_ifs with hfits
    · exact hm
    · -- The whole row does not fit, so that `m` is an end of the rest.
      obtain rfl | hrest := List.suffix_cons_iff.1 hm
      · exact absurd hle hfits
      · exact ih hrest

/-- What leaves depends on the sizes only. -/
theorem fitting_map (f : β → α) (l : List β) :
    fitting size budget (l.map f) = (fitting (fun x => size (f x)) budget l).map f := by
  induction l with
  | nil => rfl
  | cons x rest ih =>
    simp only [List.map_cons, fitting, ih, List.map_map, Function.comp_def]
    split_ifs <;> rfl

/-- What has left a row would have left a longer one. -/
theorem fitting_append (size : α → Nat) (budget : Nat) (l m : List α) :
    fitting size budget (fitting size budget l ++ m) = fitting size budget (l ++ m) := by
  induction l with
  | nil => rfl
  | cons x rest ih =>
    by_cases hle : ((x :: rest).map size).sum ≤ budget
    · rw [fitting_of_le hle]
    · -- With more behind it the row fits even less, and `x` leaves it all the same.
      have hlt : budget < ((x :: rest).map size).sum := Nat.lt_of_not_le hle
      have hlonger : budget < ((x :: (rest ++ m)).map size).sum := by
        simp only [List.map_cons, List.map_append, List.sum_cons, List.sum_append] at hlt ⊢
        omega
      rw [fitting_cons_of_lt hlt, ih, List.cons_append, fitting_cons_of_lt hlonger]

end Fitting

/-- A row in which no two members have one key is its member with a key and those with others. -/
theorem perm_cons_filter {α : Type} {key : α → Nat} {l : List α} {x : α}
    (hl : (l.map key).Nodup) (hx : x ∈ l) : l.Perm (x :: l.filter (key · != key x)) := by
  induction l with
  | nil => cases hx
  | cons y rest ih =>
    rw [List.map_cons, List.nodup_cons] at hl
    obtain ⟨hy, hrest⟩ := hl
    obtain rfl | hx := List.mem_cons.1 hx
    · have hothers : rest.filter (key · != key x) = rest := by
        refine List.filter_eq_self.2 fun z hz => ?_
        rw [bne_iff_ne]
        intro heq
        exact hy (heq ▸ List.mem_map_of_mem hz)
      rw [List.filter_cons_of_neg (by simp), hothers]
    · have hne : key y ≠ key x := fun heq => hy (heq ▸ List.mem_map_of_mem hx)
      rw [List.filter_cons_of_pos (by simpa using hne)]
      exact ((ih hrest hx).cons y).trans (List.Perm.swap x y _)

/-- It is that member that is found by its key. -/
theorem find?_of_nodup {α : Type} {key : α → Nat} {l : List α} {x : α}
    (hl : (l.map key).Nodup) (hx : x ∈ l) : l.find? (key · == key x) = some x := by
  cases hfind : l.find? (key · == key x) with
  | none => exact absurd (List.find?_eq_none.1 hfind x hx) (by simp)
  | some y =>
    have hkey : key y = key x := by simpa using List.find?_some hfind
    rw [List.inj_on_of_nodup_map hl (List.mem_of_find?_eq_some hfind) hx hkey]

/-! ## What the quarantine keeps of the store -/

/-- A freed block, as the store lists it. -/
def FreedBlock.entry (f : FreedBlock) : BlockId × Nat := (f.block, f.size)

namespace Quarantine

variable {q : Quarantine} {b : BlockId} {bytes : Nat} {others : List (BlockId × Nat)}

/-- Write a byte at a place of a block's allocation. -/
def writeAt (q : Quarantine) (b : BlockId) (place : Nat) (byte : UInt8) : Quarantine :=
  { q with inner := q.inner.modifyBytes b fun m => m.write place byte }

/-- This is what writing a byte through the allocator does. -/
theorem poke_shielded (q : Quarantine) (b : BlockId) (offset : Int) (byte : UInt8) :
    (Allocator.shielded q).poke b offset byte =
      .shielded (q.writeAt b (offset + redzoneSize).toNat byte) := rfl

/-- The store has out the blocks that are held back and some others, and nothing else; the bytes
held back are counted. -/
structure Holds (q : Quarantine) (others : List (BlockId × Nat)) : Prop where
  lent : q.inner.lent.Perm (others ++ q.held.map FreedBlock.entry)
  balanced : q.inner.Balanced
  heldBytes : q.heldBytes = (q.held.map FreedBlock.size).sum
  released : q.released ≤ q.freed.size
  strays : q.strays = []

/-- A new quarantine holds nothing back. -/
theorem holds_new (limit : Option Nat) (budget : Nat) :
    (Quarantine.new (.empty limit) budget).Holds [] where
  lent := .nil
  balanced := BlockStore.balanced_empty limit
  heldBytes := rfl
  released := Nat.le_refl _
  strays := rfl

/-- A block that was handed out is one of the others. -/
theorem Holds.push (hq : q.Holds others) (base : Address) (bytes : Nat) :
    (q.push base bytes).Holds (others ++ [(q.inner.blocks.size, bytes + 2 * redzoneSize)]) where
  lent := by
    have hpush : (q.push base bytes).inner.lent =
        q.inner.lent ++ [(q.inner.blocks.size, bytes + 2 * redzoneSize)] :=
      (BlockStore.lent_modifyBytes _ _ _).trans (BlockStore.lent_push _ _ _)
    rw [hpush]
    refine (hq.lent.append_right _).trans ?_
    rw [List.append_assoc, List.append_assoc]
    exact List.perm_append_comm.append_left others
  balanced := (hq.balanced.push _ _).modifyBlock _ (fun _ => rfl) fun _ => rfl
  heldBytes := hq.heldBytes
  released := hq.released
  strays := hq.strays

/-- Writing into an allocation changes no count. -/
theorem Holds.writeAt (hq : q.Holds others) (b : BlockId) (place : Nat) (byte : UInt8) :
    (q.writeAt b place byte).Holds others where
  lent := by
    unfold Quarantine.writeAt
    rw [BlockStore.lent_modifyBytes]
    exact hq.lent
  balanced := hq.balanced.modifyBlock _ (fun _ => rfl) fun _ => rfl
  heldBytes := hq.heldBytes
  released := hq.released
  strays := hq.strays

/-- A freed block is held back before any block goes back to the store. -/
theorem Holds.enter (hq : q.Holds ((b, bytes + 2 * redzoneSize) :: others)) :
    (q.enter b bytes).Holds others where
  lent := by
    have henter : (q.enter b bytes).inner.lent = q.inner.lent :=
      BlockStore.lent_modifyBytes _ _ _
    rw [henter, held_enter hq.released, List.map_append]
    refine hq.lent.trans ?_
    rw [← List.append_assoc]
    exact (List.perm_append_singleton _ _).symm
  balanced := hq.balanced.modifyBlock _ (fun _ => rfl) fun _ => rfl
  heldBytes := by
    rw [held_enter hq.released]
    simp [Quarantine.enter, hq.heldBytes]
  released := by
    show q.released ≤ (q.freed.push _).size
    rw [Array.size_push]
    exact Nat.le_succ_of_le hq.released
  strays := rfl

/-- If there is a block to give back, it is the first of those held back. -/
theorem held_eq_cons (hlt : q.released < q.freed.size) :
    q.held = q.freed[q.released] :: q.freed.toList.drop (q.released + 1) := by
  unfold held
  rw [List.drop_eq_getElem_cons (by simpa using hlt)]
  rfl

/-- Giving the oldest blocks to the store leaves held back those that fit, and forgets none. -/
theorem Holds.releaseOldest (hq : q.Holds others) :
    q.releaseOldest.Holds others ∧
      q.releaseOldest.held = fitting FreedBlock.size q.budget q.held := by
  induction q using Quarantine.releaseOldest.induct with
  | case1 q h oldest isKnown ih =>
    obtain ⟨hover, hlt⟩ := h
    have hheld : q.held = oldest :: q.freed.toList.drop (q.released + 1) := held_eq_cons hlt
    have hsum := hq.heldBytes
    rw [hheld, List.map_cons, List.sum_cons] at hsum
    -- The store knows the oldest block, since it is one of those that it has out.
    have hlent := hq.lent
    rw [hheld, List.map_cons] at hlent
    have hknown : q.inner.Lends oldest.block oldest.size :=
      BlockStore.mem_lent.1 <| hlent.mem_iff.2 <| List.mem_append_right _ List.mem_cons_self
    have hfree : (q.inner.free oldest.block).lent.Perm
        (others ++ (q.freed.toList.drop (q.released + 1)).map FreedBlock.entry) :=
      (hknown.lent_free.symm.trans (hlent.trans List.perm_middle)).cons_inv
    obtain ⟨hholds, hrest⟩ := ih
      { lent := hfree
        balanced := hq.balanced.free _
        heldBytes := by
          show q.heldBytes - oldest.size = _
          rw [hsum, Nat.add_sub_cancel_left]
          rfl
        released := hlt
        strays := by
          show (if isKnown then q.strays else _) = []
          rw [if_pos hknown.isLive]
          exact hq.strays }
    rw [Quarantine.releaseOldest, dif_pos ⟨hover, hlt⟩]
    refine ⟨hholds, hrest.trans ?_⟩
    rw [hheld, fitting_cons_of_lt]
    · rfl
    · rw [List.map_cons, List.sum_cons, ← hsum]
      exact hover
  | case2 q h =>
    rw [Quarantine.releaseOldest, dif_neg h]
    refine ⟨hq, (fitting_of_le ?_).symm⟩
    rw [← hq.heldBytes]
    by_contra hover
    -- Nothing is held back, so that the bytes held back are within every budget.
    have hnone : q.held = [] := by
      have hge : q.freed.size ≤ q.released := by omega
      exact List.drop_eq_nil_of_le (by simpa using hge)
    have hzero := hq.heldBytes
    rw [hnone] at hzero
    simp only [List.map_nil, List.sum_nil] at hzero
    omega

/-- Giving the oldest blocks to the store leaves the budget. -/
@[simp] theorem budget_releaseOldest (q : Quarantine) : q.releaseOldest.budget = q.budget := by
  induction q using Quarantine.releaseOldest.induct with
  | case1 q h oldest isKnown ih =>
    rw [Quarantine.releaseOldest, dif_pos h]
    exact ih
  | case2 q h => rw [Quarantine.releaseOldest, dif_neg h]

end Quarantine

/-! ## The books -/

/-- A block in the books. -/
structure Lot where
  block : BlockId
  /-- The bytes that were asked for. -/
  bytes : Nat
  /-- The bytes written into the allocation since the block was handed out, or since it was given
  back, by their place in the allocation, latest first. -/
  writes : List (Nat × UInt8)

namespace Lot

/-- The bytes of the allocation for the block. -/
def span (x : Lot) : Nat := x.bytes + 2 * Quarantine.redzoneSize

/-- The block as the store lists it. -/
def entry (x : Lot) : BlockId × Nat := (x.block, x.span)

/-- The block as the quarantine lists it. -/
def record (x : Lot) : FreedBlock := ⟨x.block, x.span⟩

/-- The block as it is given back. -/
def unwritten (x : Lot) : Lot := { x with writes := [] }

/-- The block when a byte was written at a place of an allocation, which may be that of another. -/
def noting (b : BlockId) (place : Nat) (byte : UInt8) (x : Lot) : Lot :=
  if x.block = b then { x with writes := (place, byte) :: x.writes } else x

variable {b : BlockId} {place : Nat} {byte : UInt8} {x : Lot}

@[simp] theorem block_noting : (x.noting b place byte).block = x.block := by
  unfold noting
  split_ifs <;> rfl

@[simp] theorem bytes_noting : (x.noting b place byte).bytes = x.bytes := by
  unfold noting
  split_ifs <;> rfl

@[simp] theorem span_noting : (x.noting b place byte).span = x.span := by
  unfold span
  rw [bytes_noting]

@[simp] theorem entry_noting : (x.noting b place byte).entry = x.entry := by
  unfold entry
  rw [block_noting, span_noting]

@[simp] theorem record_noting : (x.noting b place byte).record = x.record := by
  unfold record
  rw [block_noting, span_noting]

end Lot

/-- What a caller does. -/
inductive Deed where
  /-- Ask for a block, when the system has this place for it. -/
  | alloc (bytes : Nat) (place : Option Address)
  /-- Give a block back that is out, as one of the size asked for. -/
  | free (b : BlockId)
  /-- Write a byte at an offset from the storage of a block. -/
  | poke (b : BlockId) (offset : Int) (byte : UInt8)

/-- A quarantine with the books of its caller. -/
structure Books where
  quarantine : Quarantine
  /-- The blocks that are out, oldest first. -/
  out : List Lot
  /-- All blocks ever given back, in the order in which they were. -/
  freed : List Lot

namespace Books

variable {k : Books} {x : Lot} {budget : Nat}

/-- A new quarantine with empty books. -/
def new (limit : Option Nat) (budget : Nat) : Books := ⟨.new (.empty limit) budget, [], []⟩

/-- The longest end of the history of freed blocks that fits the budget. -/
def held (k : Books) : List Lot := fitting Lot.span k.quarantine.budget k.freed

/-- A block was handed out at a place. -/
def handOut (k : Books) (base : Address) (bytes : Nat) : Books :=
  { k with
    quarantine := k.quarantine.push base bytes
    out := k.out ++ [⟨k.quarantine.inner.blocks.size, bytes, []⟩] }

/-- A block was given back. -/
def takeBack (k : Books) (x : Lot) : Books where
  quarantine := k.quarantine.hold x.block x.bytes
  out := k.out.filter (·.block != x.block)
  freed := k.freed ++ [x.unwritten]

/-- A byte was written at a place of a block's allocation. -/
def write (k : Books) (b : BlockId) (place : Nat) (byte : UInt8) : Books where
  quarantine := k.quarantine.writeAt b place byte
  out := k.out.map (Lot.noting b place byte)
  freed := k.freed.map (Lot.noting b place byte)

/-- The quarantine and the books after a deed. The books only change if the quarantine does as it
was asked. A block that is not out is not given back, and nothing is written outside of the
allocations that are out or held back. -/
def serve (k : Books) : Deed → Books
  | .alloc bytes place =>
    match k.quarantine.alloc bytes place with
    | none => k
    | some (b, quarantine) => { k with quarantine, out := k.out ++ [⟨b, bytes, []⟩] }
  | .free b =>
    match k.out.find? (·.block == b) with
    | none => k
    | some x =>
      match k.quarantine.free b x.bytes with
      | .error _ => k
      | .ok quarantine =>
        { quarantine
          out := k.out.filter (·.block != b)
          freed := k.freed ++ [x.unwritten] }
  | .poke b offset byte =>
    match (k.out ++ k.held).find? (·.block == b) with
    | none => k
    | some x =>
      if -16 ≤ offset ∧ offset < x.bytes + 16 then k.write b (offset + 16).toNat byte else k

/-- The quarantine and the books after a number of deeds. -/
def after (limit : Option Nat) (budget : Nat) (deeds : List Deed) : Books :=
  deeds.foldl serve (new limit budget)

/-- All that a deed can do. -/
theorem serve_cases (k : Books) (d : Deed) :
    (∃ base bytes, bytes + 2 * Quarantine.redzoneSize ≤ Word.largest ∧
      k.serve d = k.handOut base bytes) ∨
    (∃ x ∈ k.out, k.quarantine.fault? x.block x.bytes = none ∧ k.serve d = k.takeBack x) ∨
    (∃ x ∈ k.out ++ k.held, ∃ place < x.span, ∃ byte, k.serve d = k.write x.block place byte) ∨
    k.serve d = k := by
  cases d with
  | alloc bytes place =>
    cases hadmit : k.quarantine.admit? bytes place with
    | none => exact .inr (.inr (.inr (by simp [serve, Quarantine.alloc, hadmit])))
    | some base =>
      refine .inl ⟨base, bytes, ?_, by simp [serve, Quarantine.alloc, hadmit, handOut]⟩
      obtain ⟨size, hsize, -⟩ := Option.bind_eq_some_iff.1 hadmit
      unfold Quarantine.allocationSize? Word.fit? at hsize
      by_contra hlarge
      rw [if_neg hlarge] at hsize
      cases hsize
  | free b =>
    cases hfind : k.out.find? (·.block == b) with
    | none => exact .inr (.inr (.inr (by simp [serve, hfind])))
    | some x =>
      obtain rfl : x.block = b := by simpa using List.find?_some hfind
      have hx : x ∈ k.out := List.mem_of_find?_eq_some hfind
      cases hfault : k.quarantine.fault? x.block x.bytes with
      | none =>
        have hserve : k.serve (.free x.block) = k.takeBack x := by
          simp [serve, Quarantine.free, hfind, hfault, takeBack]
        exact .inr (.inl ⟨x, hx, hfault, hserve⟩)
      | some fault =>
        exact .inr (.inr (.inr (by simp [serve, Quarantine.free, hfind, hfault])))
  | poke b offset byte =>
    cases hfind : (k.out ++ k.held).find? (·.block == b) with
    | none => exact .inr (.inr (.inr (by simp [serve, hfind])))
    | some x =>
      obtain rfl : x.block = b := by simpa using List.find?_some hfind
      have hx : x ∈ k.out ++ k.held := List.mem_of_find?_eq_some hfind
      by_cases hrange : -16 ≤ offset ∧ offset < x.bytes + 16
      · refine .inr (.inr (.inl ⟨x, hx, (offset + 16).toNat, ?_, byte, ?_⟩))
        · unfold Lot.span Quarantine.redzoneSize
          omega
        · simp [serve, hfind, hrange]
      · exact .inr (.inr (.inr (by simp [serve, hfind, hrange])))

/-- What holds of empty books and is kept by every deed holds after any number of deeds. -/
theorem after_invariant {P : Books → Prop} {limit : Option Nat} {budget : Nat}
    (hnew : P (new limit budget)) (hserve : ∀ k d, P k → P (k.serve d)) (deeds : List Deed) :
    P (after limit budget deeds) := by
  unfold after
  generalize new limit budget = k at hnew
  induction deeds generalizing k with
  | nil => exact hnew
  | cons d rest ih => exact ih (k.serve d) (hserve k d hnew)

/-! ## What the books say about the counters -/

/-- The counters, the blocks held back and the blocks of the store are as the books have them. -/
structure Accounted (k : Books) : Prop where
  holds : k.quarantine.Holds (k.out.map Lot.entry)
  held : k.quarantine.held = k.held.map Lot.record
  liveBytes : k.quarantine.liveBytes = (k.out.map Lot.bytes).sum
  fits : ∀ x ∈ k.out ++ k.held, x.span ≤ Word.largest

/-- The blocks of the store are those that are out and those that are held back. -/
theorem Accounted.lent (hk : k.Accounted) :
    k.quarantine.inner.lent.Perm ((k.out ++ k.held).map Lot.entry) := by
  have hlent := hk.holds.lent
  rw [hk.held, List.map_map] at hlent
  rw [List.map_append]
  exact hlent

/-- No block is in the books twice, among those that are out or held back. -/
theorem Accounted.nodup (hk : k.Accounted) : ((k.out ++ k.held).map Lot.block).Nodup := by
  have hblocks := hk.lent.map Prod.fst
  rw [List.map_map] at hblocks
  exact hblocks.nodup_iff.1 k.quarantine.inner.nodup_lent

/-- A block that is out or held back is one of the blocks of the store. -/
theorem Accounted.lends (hk : k.Accounted) (hx : x ∈ k.out ++ k.held) :
    k.quarantine.inner.Lends x.block x.span :=
  BlockStore.mem_lent.1 (hk.lent.mem_iff.2 (List.mem_map_of_mem hx))

/-- Empty books are right about a new quarantine. -/
theorem accounted_new (limit : Option Nat) (budget : Nat) : (new limit budget).Accounted where
  holds := Quarantine.holds_new limit budget
  held := rfl
  liveBytes := rfl
  fits := fun _ hx => absurd hx List.not_mem_nil

/-- Handing out a block keeps the books right. -/
theorem Accounted.handOut (hk : k.Accounted) (base : Address) {bytes : Nat}
    (hfit : bytes + 2 * Quarantine.redzoneSize ≤ Word.largest) :
    (k.handOut base bytes).Accounted where
  holds := by
    have hpush := hk.holds.push base bytes
    unfold Books.handOut
    rw [List.map_append]
    exact hpush
  held := hk.held
  liveBytes := by
    show k.quarantine.liveBytes + bytes = ((k.out ++ [_]).map Lot.bytes).sum
    rw [hk.liveBytes]
    simp
  fits := by
    intro x hx
    show x.bytes + _ ≤ _
    simp only [Books.handOut, List.mem_append, List.mem_singleton] at hx
    obtain (hx | rfl) | hx := hx
    · exact hk.fits x (List.mem_append_left _ hx)
    · exact hfit
    · exact hk.fits x (List.mem_append_right _ hx)

/-- Given back, a block is held back if it fits the budget, and older ones leave. -/
theorem held_takeBack (k : Books) (x : Lot) :
    (k.takeBack x).held =
      fitting Lot.span k.quarantine.budget (k.held ++ [x.unwritten]) := by
  have hbudget : (k.takeBack x).quarantine.budget = k.quarantine.budget :=
    Quarantine.budget_releaseOldest (k.quarantine.enter x.block x.bytes)
  unfold held
  rw [hbudget, fitting_append]
  rfl

/-- Taking a block back keeps the books right. -/
theorem Accounted.takeBack (hk : k.Accounted) (hx : x ∈ k.out) : (k.takeBack x).Accounted := by
  have hnodup : (k.out.map Lot.block).Nodup := by
    have h := hk.nodup
    rw [List.map_append] at h
    exact h.of_append_left
  -- Before old blocks leave, `x` has gone from those that are out to the end of those held back.
  have hperm : k.out.Perm (x :: k.out.filter (·.block != x.block)) := perm_cons_filter hnodup hx
  have hholds : k.quarantine.Holds
      ((x.block, x.bytes + 2 * Quarantine.redzoneSize) ::
        (k.out.filter (·.block != x.block)).map Lot.entry) :=
    { hk.holds with lent := hk.holds.lent.trans ((hperm.map Lot.entry).append_right _) }
  obtain ⟨hafter, hheld⟩ := hholds.enter.releaseOldest
  have hrecords : (k.quarantine.enter x.block x.bytes).held =
      (k.held ++ [x.unwritten]).map Lot.record := by
    rw [Quarantine.held_enter hk.holds.released, hk.held, List.map_append]
    rfl
  refine ⟨hafter, ?_, ?_, fun y hy => ?_⟩
  · calc (k.takeBack x).quarantine.held
        = fitting FreedBlock.size k.quarantine.budget
            (k.quarantine.enter x.block x.bytes).held := hheld
      _ = fitting FreedBlock.size k.quarantine.budget
            ((k.held ++ [x.unwritten]).map Lot.record) := by rw [hrecords]
      _ = (k.takeBack x).held.map Lot.record := by
          rw [fitting_map, held_takeBack]
          rfl
  · have hlive : (k.takeBack x).quarantine.liveBytes = k.quarantine.liveBytes - x.bytes :=
      (Quarantine.retains_releaseOldest _).liveBytes
    have hsum := (hperm.map Lot.bytes).sum_eq
    rw [List.map_cons, List.sum_cons] at hsum
    rw [hlive, hk.liveBytes, hsum, Nat.add_sub_cancel_left]
    rfl
  · rw [held_takeBack] at hy
    have hold : y ∈ k.out ++ k.held ∨ y.span = x.span := by
      obtain hy | hy := List.mem_append.1 hy
      · exact .inl (List.mem_append_left _ (List.mem_of_mem_filter hy))
      · have hy := (fitting_suffix _ _ _).subset hy
        obtain hy | hy := List.mem_append.1 hy
        · exact .inl (List.mem_append_right _ hy)
        · rw [List.mem_singleton.1 hy]
          exact .inr rfl
    obtain hy | hspan := hold
    · exact hk.fits y hy
    · rw [hspan]
      exact hk.fits x (List.mem_append_left _ hx)

/-- A write is noted in the books of a block that is held back. -/
theorem held_write (k : Books) (b : BlockId) (place : Nat) (byte : UInt8) :
    (k.write b place byte).held = k.held.map (Lot.noting b place byte) := by
  have hfit : fitting Lot.span k.quarantine.budget (k.freed.map (Lot.noting b place byte)) = _ :=
    fitting_map _ _
  simp only [Lot.span_noting] at hfit
  exact hfit

/-- Writing into an allocation keeps the books right. -/
theorem Accounted.write (hk : k.Accounted) (b : BlockId) (place : Nat) (byte : UInt8) :
    (k.write b place byte).Accounted where
  holds := by
    have hentries : (k.write b place byte).out.map Lot.entry = k.out.map Lot.entry := by
      simp [Books.write, Function.comp_def]
    rw [hentries]
    exact hk.holds.writeAt b place byte
  held := by
    rw [held_write, List.map_map]
    simp only [Function.comp_def, Lot.record_noting]
    exact hk.held
  liveBytes := by
    have hbytes : (k.write b place byte).out.map Lot.bytes = k.out.map Lot.bytes := by
      simp [Books.write, Function.comp_def]
    rw [hbytes]
    exact hk.liveBytes
  fits := by
    intro x hx
    have hx : x ∈ (k.out ++ k.held).map (Lot.noting b place byte) := by
      rw [List.map_append, ← held_write]
      exact hx
    obtain ⟨y, hy, rfl⟩ := List.mem_map.1 hx
    rw [Lot.span_noting]
    exact hk.fits y hy

/-- Every deed keeps the books right. -/
theorem Accounted.serve (hk : k.Accounted) (d : Deed) : (k.serve d).Accounted := by
  obtain ⟨base, bytes, hfit, heq⟩ | ⟨x, hx, -, heq⟩ | ⟨x, -, place, -, byte, heq⟩ | heq :=
    k.serve_cases d
  · rw [heq]
    exact hk.handOut base hfit
  · rw [heq]
    exact hk.takeBack hx
  · rw [heq]
    exact hk.write x.block place byte
  · rw [heq]
    exact hk

/-- The books are right after any number of deeds. -/
theorem accounted_after (limit : Option Nat) (budget : Nat) (deeds : List Deed) :
    (after limit budget deeds).Accounted :=
  after_invariant (accounted_new limit budget) (fun _ d hk => hk.serve d) deeds

/-- The budget never changes. -/
theorem budget_after (limit : Option Nat) (budget : Nat) (deeds : List Deed) :
    (after limit budget deeds).quarantine.budget = budget := by
  refine after_invariant (P := fun k => k.quarantine.budget = budget) rfl (fun k d hk => ?_) deeds
  obtain ⟨base, bytes, -, heq⟩ | ⟨x, -, -, heq⟩ | ⟨x, -, place, -, byte, heq⟩ | heq :=
    k.serve_cases d
  · rw [heq]
    exact hk
  · rw [heq]
    exact (Quarantine.budget_releaseOldest (k.quarantine.enter x.block x.bytes)).trans hk
  · rw [heq]
    exact hk
  · rw [heq]
    exact hk

end Books

end HybridHeap.Memory
