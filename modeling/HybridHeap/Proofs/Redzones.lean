import HybridHeap.Memory.Session
import HybridHeap.Proofs.QuarantineBooks

/-!
# What the quarantine accounts for and what it notices

Beside the counters the books of a caller say what the quarantine sees: the bytes in the redzones of
a block that is out, and all bytes of the allocation of a block that is held back (`Displays`). A
block can be given back exactly if every byte of its redzones, those of the stored size included, is
the one that was written there when it was handed out, and a block that is held back counts as
corrupted exactly if some byte of its allocation is not the poison byte.

The stored size decides where the trailing redzone is looked for, but only if it is the size that
the caller names; otherwise the damage is found before that.
-/

namespace HybridHeap.Memory

/-! ## Words and bytes -/

/-- A number put together from digits below 256, lowest first, has these digits. -/
theorem digit_foldr (digit : Nat → Nat) (hdigit : ∀ j, digit j < 256) (l : List Nat) (i : Nat)
    (hi : i < l.length) :
    l.foldr (fun j n => digit j + 256 * n) 0 / 256 ^ i % 256 = digit l[i] := by
  induction l generalizing i with
  | nil => cases hi
  | cons j rest ih =>
    have hj := hdigit j
    -- A division by 256 takes the lowest digit off, and leaves what the others make.
    rw [List.foldr_cons]
    generalize hn : rest.foldr (fun j n => digit j + 256 * n) 0 = n at ih
    cases i with
    | zero =>
      rw [Nat.pow_zero, Nat.div_one, List.getElem_cons_zero]
      omega
    | succ i =>
      have hrest : (digit j + 256 * n) / 256 = n := by omega
      rw [Nat.pow_succ', ← Nat.div_div_eq_div_mul, hrest, List.getElem_cons_succ]
      exact ih i (Nat.lt_of_succ_lt_succ hi)

/-- Eight bytes read as a word exactly if they are the bytes of that word. -/
theorem Bytes.readWord_eq_iff {m : Bytes} {n : Nat} (hn : n ≤ Word.largest) :
    m.readWord = n ↔ ∀ i < 8, m.read i = UInt8.ofNat (n >>> (8 * i)) := by
  refine ⟨fun hword i hi => ?_, readWord_eq hn⟩
  have hdigit := digit_foldr (fun i => (m.read i).toNat) (fun j => UInt8.toNat_lt _)
    (List.range 8) i (by simpa using hi)
  rw [List.getElem_range] at hdigit
  rw [← UInt8.toNat_inj, UInt8.toNat_ofNat', Nat.shiftRight_eq_div_pow, Nat.pow_mul, ← hword]
  exact hdigit.symm

namespace Quarantine

variable {q : Quarantine} {b : BlockId} {bytes place : Nat} {m : Bytes}

/-- Whether a place is in the redzones around a block of so many bytes. -/
def InRedzone (bytes place : Nat) : Prop :=
  place < redzoneSize ∨ redzoneSize + bytes ≤ place ∧ place < bytes + 2 * redzoneSize

/-- The byte that handing out a block of so many bytes writes at a place in its redzones: the size
of the allocation, lowest byte first, and then the redzone byte. -/
def stamp (bytes place : Nat) : UInt8 :=
  if place < 8 then UInt8.ofNat ((bytes + 2 * redzoneSize) >>> (8 * place)) else redzoneByte

/-- A fresh allocation has the stamp in its redzones. -/
theorem read_freshBytes (hplace : InRedzone bytes place) :
    (freshBytes bytes).read place = stamp bytes place := by
  unfold InRedzone redzoneSize at hplace
  unfold freshBytes Bytes.writeWord stamp redzoneSize
  dsimp only
  rw [Bytes.read_writeRun, Bytes.read_foldl_write, Bytes.read_writeRun]
  split_ifs <;> first | rfl | omega

/-- The redzones pass the test of giving back exactly if they have the stamp everywhere. -/
theorem intact_iff (hfit : bytes + 2 * redzoneSize ≤ Word.largest) :
    (m.readWord = bytes + 2 * redzoneSize ∧ redzonesIntact m bytes = true) ↔
      ∀ place, InRedzone bytes place → m.read place = stamp bytes place := by
  rw [Bytes.readWord_eq_iff hfit]
  -- The word has the first eight places; the two runs have the rest of the leading redzone and all
  -- of the trailing one.
  unfold redzonesIntact Bytes.runIs
  simp only [Bool.and_eq_true, List.all_eq_true, List.mem_range, beq_iff_eq]
  constructor
  · rintro ⟨hword, hleading, htrailing⟩ place hplace
    unfold InRedzone at hplace
    unfold stamp
    split_ifs with hlt
    · exact hword place hlt
    · unfold redzoneSize at *
      obtain hplace | hplace := hplace
      · have hbyte := hleading (place - 8) (by omega)
        rwa [Nat.add_sub_cancel' (by omega)] at hbyte
      · have hbyte := htrailing (place - (16 + bytes)) (by omega)
        rwa [Nat.add_sub_cancel' (by omega)] at hbyte
  · intro hm
    unfold InRedzone stamp redzoneSize at *
    refine ⟨fun i hi => ?_, fun i hi => ?_, fun i hi => ?_⟩
    · rw [hm i (by omega), if_pos hi]
    · rw [hm (8 + i) (by omega), if_neg (by omega)]
    · rw [hm (16 + bytes + i) (by omega), if_neg (by omega)]

/-- A block with the stamp in its redzones can be given back. -/
theorem fault?_of_intact (hfit : bytes + 2 * redzoneSize ≤ Word.largest)
    (hlive : bytes ≤ q.liveBytes)
    (hstamp : ∀ place, InRedzone bytes place → (q.inner.bytesOf b).read place = stamp bytes place) :
    q.fault? b bytes = none := by
  obtain ⟨hword, hintact⟩ := (intact_iff hfit).2 hstamp
  unfold fault? allocationSize? Word.fit?
  simp [hfit, hword, hintact, Nat.not_lt_of_le hlive]

/-- A block with another byte in its redzones cannot be given back. -/
theorem fault?_of_damaged (hfit : bytes + 2 * redzoneSize ≤ Word.largest)
    (hplace : InRedzone bytes place)
    (hdamage : (q.inner.bytesOf b).read place ≠ stamp bytes place) :
    q.fault? b bytes = some .redzoneDamaged := by
  have hbroken : ¬((q.inner.bytesOf b).readWord = bytes + 2 * redzoneSize ∧
      redzonesIntact (q.inner.bytesOf b) bytes = true) := by
    intro hintact
    exact hdamage ((intact_iff hfit).1 hintact place hplace)
  unfold fault? allocationSize? Word.fit?
  rw [if_pos hfit]
  dsimp only
  rw [if_pos]
  simpa [or_iff_not_imp_left] using hbroken

/-- A freed block is filled with poison. -/
theorem read_poison (hb : b < q.inner.blocks.size) (hplace : place < bytes + 2 * redzoneSize) :
    ((q.poison b bytes).inner.bytesOf b).read place = freedByte := by
  by_contra hne
  have hother := (Bytes.hasOther_iff _ _ _).2 ⟨place, hplace, hne⟩
  rw [hasOther_poison hb] at hother
  cases hother

end Quarantine

/-- Changing the contents of a block changes them. -/
theorem BlockStore.bytesOf_modifyBytes_self {s : BlockStore} {b : BlockId} (f : Bytes → Bytes)
    (hb : b < s.blocks.size) : (s.modifyBytes b f).bytesOf b = f (s.bytesOf b) := by
  unfold bytesOf modifyBytes
  rw [getElem?_modifyBlock, if_pos rfl, Array.getElem?_eq_getElem hb]
  rfl

/-! ## What the books say about the contents -/

namespace Lot

open Quarantine

variable {x : Lot} {b : BlockId} {place i : Nat} {byte : UInt8} {before : Nat → UInt8}

/-- The byte at a place of the allocation by the books: the latest written there, or else what was
there before. -/
def byteAt (x : Lot) (before : Nat → UInt8) (place : Nat) : UInt8 :=
  (x.writes.lookup place).getD (before place)

/-- Some byte in the redzones is not the one that was written when the block was handed out. -/
def Damaged (x : Lot) : Prop :=
  ∃ place, InRedzone x.bytes place ∧ x.byteAt (stamp x.bytes) place ≠ stamp x.bytes place

/-- Some byte of the allocation is not the poison that it was filled with. -/
def Corrupted (x : Lot) : Prop := ∃ place < x.span, x.byteAt (fun _ => freedByte) place ≠ freedByte

instance : DecidablePred Corrupted := fun x =>
  inferInstanceAs (Decidable (∃ place < x.span, x.byteAt (fun _ => freedByte) place ≠ freedByte))

/-- A byte that is written is there in the books. -/
theorem byteAt_noting : (x.noting b place byte).byteAt before i =
    if x.block = b ∧ i = place then byte else x.byteAt before i := by
  unfold noting byteAt
  by_cases hb : x.block = b
  · by_cases hi : i = place
    · simp [hb, hi]
    · simp [hb, hi, List.lookup_cons, beq_eq_false_iff_ne.2 hi]
  · simp [hb]

end Lot

namespace Books

open Quarantine

variable {k : Books} {x : Lot}

/-- The bytes in the redzones of the blocks that are out and in the allocations of those held back
are as the books have them. -/
structure Displays (k : Books) : Prop where
  out : ∀ x ∈ k.out, ∀ place, InRedzone x.bytes place →
    (k.quarantine.inner.bytesOf x.block).read place = x.byteAt (stamp x.bytes) place
  held : ∀ x ∈ k.held, ∀ place < x.span,
    (k.quarantine.inner.bytesOf x.block).read place = x.byteAt (fun _ => freedByte) place

/-- Empty books say nothing. -/
theorem displays_new (limit : Option Nat) (budget : Nat) : (new limit budget).Displays where
  out := fun _ hx => absurd hx List.not_mem_nil
  held := fun _ hx => absurd hx List.not_mem_nil

/-- Handing out a block writes its stamp and leaves the others. -/
theorem Displays.handOut (hk : k.Displays) (hacc : k.Accounted) (base : Address) (bytes : Nat) :
    (k.handOut base bytes).Displays := by
  have hothers : ∀ x ∈ k.out ++ k.held,
      (k.handOut base bytes).quarantine.inner.bytesOf x.block =
        k.quarantine.inner.bytesOf x.block := by
    intro x hx
    have hlt := (hacc.lends hx).lt_size
    exact (BlockStore.bytesOf_modifyBytes (Nat.ne_of_lt hlt) _ _).trans
      (BlockStore.bytesOf_push base _ hlt)
  constructor
  · intro x hx place hplace
    obtain hx | hx := List.mem_append.1 hx
    · rw [hothers x (List.mem_append_left _ hx)]
      exact hk.out x hx place hplace
    · obtain rfl := List.mem_singleton.1 hx
      have hnew : (k.handOut base bytes).quarantine.inner.bytesOf k.quarantine.inner.blocks.size =
          freshBytes bytes := by
        refine BlockStore.bytesOf_modifyBytes_self _ ?_
        rw [BlockStore.size_blocks_push]
        exact Nat.lt_succ_self _
      rw [hnew]
      exact read_freshBytes hplace
  · intro x hx place hplace
    rw [hothers x (List.mem_append_right _ hx)]
    exact hk.held x hx place hplace

/-- Taking a block back fills its allocation with poison. -/
theorem read_takeBack {place : Nat} (hacc : k.Accounted) (hx : x ∈ k.out)
    (hplace : place < x.span) :
    ((k.takeBack x).quarantine.inner.bytesOf x.block).read place = freedByte := by
  have hlt := (hacc.lends (List.mem_append_left _ hx)).lt_size
  have hbytes : (k.takeBack x).quarantine.inner.bytesOf x.block =
      (k.quarantine.poison x.block x.bytes).inner.bytesOf x.block :=
    (retains_releaseOldest (k.quarantine.enter x.block x.bytes)).bytesOf _
  rw [hbytes]
  exact read_poison hlt hplace

/-- Taking a block back leaves the contents of the others. -/
theorem bytesOf_takeBack {b : BlockId} (hb : b ≠ x.block) :
    (k.takeBack x).quarantine.inner.bytesOf b = k.quarantine.inner.bytesOf b :=
  ((retains_releaseOldest (k.quarantine.enter x.block x.bytes)).bytesOf b).trans
    (BlockStore.bytesOf_modifyBytes hb _ _)

/-- Taking a block back leaves the books right about the contents. -/
theorem Displays.takeBack (hk : k.Displays) (hacc : k.Accounted) (hx : x ∈ k.out) :
    (k.takeBack x).Displays := by
  have hnodup := hacc.nodup
  rw [List.map_append, List.nodup_append] at hnodup
  obtain ⟨-, -, hdisjoint⟩ := hnodup
  -- No block is out and held back at once, so that the poison meets the allocation of `x` alone.
  constructor
  · intro y hy place hplace
    obtain ⟨hy, hne⟩ := List.mem_filter.1 hy
    rw [bytesOf_takeBack (by simpa using hne)]
    exact hk.out y hy place hplace
  · intro y hy place hplace
    rw [held_takeBack] at hy
    obtain hy | hy := List.mem_append.1 ((fitting_suffix _ _ _).subset hy)
    · have hne : y.block ≠ x.block :=
        (hdisjoint _ (List.mem_map_of_mem hx) _ (List.mem_map_of_mem hy)).symm
      rw [bytesOf_takeBack hne]
      exact hk.held y hy place hplace
    · obtain rfl := List.mem_singleton.1 hy
      exact read_takeBack hacc hx hplace

/-- Writing a byte into an allocation changes it there and nothing else. -/
theorem read_write {b : BlockId} {place i : Nat} {byte : UInt8} {before : Nat → UInt8}
    (hacc : k.Accounted) (hx : x ∈ k.out ++ k.held)
    (hbefore : (k.quarantine.inner.bytesOf x.block).read i = x.byteAt before i) :
    ((k.write b place byte).quarantine.inner.bytesOf x.block).read i =
      (x.noting b place byte).byteAt before i := by
  rw [Lot.byteAt_noting]
  show ((k.quarantine.inner.modifyBytes b _).bytesOf x.block).read i = _
  by_cases hb : x.block = b
  · subst hb
    rw [BlockStore.bytesOf_modifyBytes_self _ (hacc.lends hx).lt_size, Bytes.read_write]
    simp only [true_and, hbefore]
  · rw [BlockStore.bytesOf_modifyBytes hb, if_neg fun h => hb h.1]
    exact hbefore

/-- Writing into an allocation leaves the books right about the contents. -/
theorem Displays.write (hk : k.Displays) (hacc : k.Accounted) (b : BlockId) (place : Nat)
    (byte : UInt8) : (k.write b place byte).Displays := by
  constructor
  · intro y hy i hi
    obtain ⟨x, hx, rfl⟩ := List.mem_map.1 hy
    rw [Lot.bytes_noting] at hi ⊢
    rw [Lot.block_noting]
    exact read_write hacc (List.mem_append_left _ hx) (hk.out x hx i hi)
  · intro y hy i hi
    rw [held_write] at hy
    obtain ⟨x, hx, rfl⟩ := List.mem_map.1 hy
    rw [Lot.span_noting] at hi
    rw [Lot.block_noting]
    exact read_write hacc (List.mem_append_right _ hx) (hk.held x hx i hi)

/-- The books are right about the contents after any number of deeds. -/
theorem displays_after (limit : Option Nat) (budget : Nat) (deeds : List Deed) :
    (after limit budget deeds).Displays := by
  have hboth : (after limit budget deeds).Accounted ∧ (after limit budget deeds).Displays := by
    refine after_invariant (P := fun k => k.Accounted ∧ k.Displays)
      ⟨accounted_new limit budget, displays_new limit budget⟩ (fun k d hk => ?_) deeds
    obtain ⟨hacc, hdisplays⟩ := hk
    refine ⟨hacc.serve d, ?_⟩
    obtain ⟨base, bytes, -, heq⟩ | ⟨x, hx, -, heq⟩ | ⟨x, -, place, -, byte, heq⟩ | heq :=
      k.serve_cases d
    · rw [heq]
      exact hdisplays.handOut hacc base bytes
    · rw [heq]
      exact hdisplays.takeBack hacc hx
    · rw [heq]
      exact hdisplays.write hacc x.block place byte
    · rw [heq]
      exact hdisplays
  exact hboth.2

/-! ## Giving back -/

/-- A block that is out and is not damaged can be given back. -/
theorem fault?_of_not_damaged (hacc : k.Accounted) (hk : k.Displays) (hx : x ∈ k.out)
    (hdamage : ¬x.Damaged) : k.quarantine.fault? x.block x.bytes = none := by
  have hlive : x.bytes ≤ k.quarantine.liveBytes := by
    rw [hacc.liveBytes]
    exact List.single_le_sum (fun _ _ => Nat.zero_le _) _ (List.mem_map_of_mem hx)
  refine fault?_of_intact (hacc.fits x (List.mem_append_left _ hx)) hlive fun place hplace => ?_
  rw [hk.out x hx place hplace]
  by_contra hne
  exact hdamage ⟨place, hplace, hne⟩

/-- A block that is out and is damaged cannot be given back. -/
theorem fault?_of_lot_damaged (hacc : k.Accounted) (hk : k.Displays) (hx : x ∈ k.out)
    (hdamage : x.Damaged) : k.quarantine.fault? x.block x.bytes = some .redzoneDamaged := by
  obtain ⟨place, hplace, hne⟩ := hdamage
  refine fault?_of_damaged (hacc.fits x (List.mem_append_left _ hx)) hplace ?_
  rw [hk.out x hx place hplace]
  exact hne

/-- A block that is held back and is not corrupted cannot be given back again, since poison is not
what stands in a redzone. -/
theorem fault?_of_held (hacc : k.Accounted) (hk : k.Displays) (hx : x ∈ k.held)
    (hclean : ¬x.Corrupted) : k.quarantine.fault? x.block x.bytes = some .redzoneDamaged := by
  -- The first place behind the word is looked at.
  have hspan : 8 < x.span := by
    unfold Lot.span redzoneSize
    omega
  have hpoison : (k.quarantine.inner.bytesOf x.block).read 8 = freedByte := by
    rw [hk.held x hx 8 hspan]
    by_contra hne
    exact hclean ⟨8, hspan, hne⟩
  have hplace : InRedzone x.bytes 8 := by
    unfold InRedzone redzoneSize
    omega
  refine fault?_of_damaged (hacc.fits x (List.mem_append_right _ hx)) hplace ?_
  rw [hpoison]
  unfold stamp freedByte redzoneByte
  rw [if_neg (by omega)]
  decide

/-- A block that is out and can be given back is taken back when it is. -/
theorem serve_free (hacc : k.Accounted) (hx : x ∈ k.out)
    (hfault : k.quarantine.fault? x.block x.bytes = none) :
    k.serve (.free x.block) = k.takeBack x := by
  have hnodup := hacc.nodup
  rw [List.map_append] at hnodup
  have hfind : k.out.find? (·.block == x.block) = some x :=
    find?_of_nodup hnodup.of_append_left hx
  simp [serve, Quarantine.free, hfind, hfault, takeBack]

/-- A byte that is written between 16 bytes before the storage of a block and 16 bytes behind it is
written where the allocator writes it. -/
theorem serve_poke {offset : Int} {byte : UInt8} (hacc : k.Accounted) (hx : x ∈ k.out ++ k.held)
    (hlow : -16 ≤ offset) (hhigh : offset < x.bytes + 16) :
    (Allocator.shielded k.quarantine).poke x.block offset byte =
      .shielded (k.serve (.poke x.block offset byte)).quarantine := by
  have hfind : (k.out ++ k.held).find? (·.block == x.block) = some x :=
    find?_of_nodup hacc.nodup hx
  have hserve : k.serve (.poke x.block offset byte) = k.write x.block (offset + 16).toNat byte := by
    simp [serve, hfind, hlow, hhigh]
  rw [hserve, poke_shielded]
  rfl

/-- The blocks found corrupted are those that the books have as corrupted. -/
theorem corruptedBlocks_eq (hacc : k.Accounted) (hk : k.Displays) :
    k.quarantine.corruptedBlocks = k.held.countP fun x => decide x.Corrupted := by
  unfold corruptedBlocks
  rw [hacc.held, List.countP_map]
  refine List.countP_congr fun x hx => ?_
  show ((k.quarantine.inner.bytesOf x.block).hasOther x.span freedByte) = true ↔ _
  rw [Bytes.hasOther_iff, decide_eq_true_iff]
  refine exists_congr fun place => and_congr_right fun hplace => ?_
  rw [hk.held x hx place hplace]

/-! ## The quarantine as its caller sees it -/

/-- The counters of the quarantine and the store underneath, for a list of blocks held back. -/
structure Tallies (k : Books) (budget : Nat) (held : List Lot) : Prop where
  /-- The bytes in use are those asked for with the blocks that are out. -/
  liveBytes : k.quarantine.liveBytes = (k.out.map Lot.bytes).sum
  /-- The list is that of the blocks held back, oldest first. -/
  held_eq : k.quarantine.held = held.map Lot.record
  /-- What is held back is an end of the history of freed blocks, -/
  suffix : held <:+ k.freed
  /-- it fits the budget, -/
  fits : (held.map Lot.span).sum ≤ budget
  /-- and no longer one does. -/
  longest : ∀ l, l <:+ k.freed → (l.map Lot.span).sum ≤ budget → l <:+ held
  /-- The bytes held back are those of the allocations held back. -/
  heldBytes : k.quarantine.heldBytes = (held.map Lot.span).sum
  /-- The store has the blocks that are out and those held back, -/
  blocks : ∀ b size, k.quarantine.inner.Lends b size ↔ (b, size) ∈ (k.out ++ held).map Lot.entry
  /-- no two of which are one, -/
  nodup : ((k.out ++ held).map Lot.block).Nodup
  /-- it counts them, -/
  blockCount : k.quarantine.inner.blockCount = k.out.length + held.length
  /-- and it counts their bytes. -/
  bytesAllocated : k.quarantine.inner.bytesAllocated =
    (k.out.map Lot.span).sum + (held.map Lot.span).sum
  /-- It knew every block that went back to it. -/
  strays : k.quarantine.strays = []
  /-- A block into whose allocation nothing was written can be given back, and is. -/
  accepted : ∀ x ∈ k.out, x.writes = [] →
    k.quarantine.free x.block x.bytes = .ok (k.takeBack x).quarantine ∧
      k.serve (.free x.block) = k.takeBack x

/-- A block into whose allocation nothing was written is not damaged. -/
theorem not_damaged_of_writes (hx : x.writes = []) : ¬x.Damaged := by
  rintro ⟨place, -, hne⟩
  unfold Lot.byteAt at hne
  rw [hx] at hne
  exact hne rfl

/-- After any number of deeds of its caller, the quarantine holds back the longest end of the
history of freed blocks that fits the budget, and its counters and the store underneath agree with
the books. -/
theorem quarantine_tallies (limit : Option Nat) (budget : Nat) (deeds : List Deed) :
    ∃ held, (after limit budget deeds).Tallies budget held := by
  have hbudget := budget_after limit budget deeds
  have hdisplays := displays_after limit budget deeds
  have hacc := accounted_after limit budget deeds
  generalize after limit budget deeds = k at *
  subst hbudget
  refine ⟨k.held, ?_⟩
  exact
    { liveBytes := hacc.liveBytes
      held_eq := hacc.held
      suffix := fitting_suffix _ _ _
      fits := sum_fitting_le _ _ _
      longest := fun l hl hle => suffix_fitting hl hle
      heldBytes := by
        rw [hacc.holds.heldBytes, hacc.held, List.map_map]
        rfl
      blocks := fun b size => by rw [← BlockStore.mem_lent, hacc.lent.mem_iff]
      nodup := hacc.nodup
      blockCount := by
        rw [← BlockStore.length_lent, hacc.lent.length_eq, List.length_map, List.length_append]
      bytesAllocated := by
        rw [← hacc.holds.balanced.sum_lent, (hacc.lent.map Prod.snd).sum_eq, List.map_map,
          List.map_append, List.sum_append]
        rfl
      strays := hacc.holds.strays
      accepted := fun x hx hwrites => by
        have hfault := fault?_of_not_damaged hacc hdisplays hx (not_damaged_of_writes hwrites)
        refine ⟨?_, serve_free hacc hx hfault⟩
        unfold Quarantine.free
        rw [hfault]
        rfl }

/-- Three blocks of 40 bytes given back over a budget that two of them fill: the first has gone to
the store. -/
example :
    let k := after none 144 [.alloc 40 (some 65536), .alloc 40 (some 65680),
      .alloc 40 (some 65824), .free 0, .free 1, .free 2];
    k.quarantine.held.map FreedBlock.block = [1, 2] ∧ k.quarantine.inner.blockCount = 2 := by
  decide +kernel

end Books

/-! ## What giving back says -/

namespace Session

/-- What is said of a block of so many bytes that is damaged. The session stays as it is. -/
def reportDamage (s : Session) (bytes : Nat) : Reaction :=
  let cause := Fatal.redzoneDamaged bytes none
  ⟨s, .failure (.fatal cause), [(.error, cause.message)]⟩

/-- Giving back a block that is damaged is reported. -/
theorem free_of_damaged {q : Quarantine} {sizes : Array Nat} {b : BlockId} {bytes : Nat}
    (hfault : q.fault? b bytes = some .redzoneDamaged) :
    free ⟨.shielded q, sizes⟩ b bytes = reportDamage ⟨.shielded q, sizes⟩ bytes := by
  unfold free
  rw [show (Allocator.shielded q).fault? b bytes = some .redzoneDamaged from hfault]
  rfl

/-- Giving back a block with which nothing is wrong says nothing if the store knows what it gets. -/
theorem free_of_intact {q : Quarantine} {sizes : Array Nat} {b : BlockId} {bytes : Nat}
    (hfault : q.fault? b bytes = none) (hstrays : (q.hold b bytes).strays = []) :
    free ⟨.shielded q, sizes⟩ b bytes = ⟨⟨.shielded (q.hold b bytes), sizes⟩, .nothing, []⟩ := by
  unfold free
  rw [show (Allocator.shielded q).fault? b bytes = none from hfault]
  show Reaction.mk _ _ ((q.hold b bytes).strays.map FreedBlock.size |>.map _) = _
  rw [hstrays]
  rfl

end Session

namespace Books

open Quarantine

/-- After any number of deeds of its caller, a byte written within 16 bytes of the storage of a
block goes into its allocation. Giving back a block that is out is fatal exactly if its redzones are
damaged, and then nothing changes; otherwise the block is taken back and its allocation filled with
poison. The blocks counted as corrupted are those held back with another byte than poison in their
allocations, and giving one of the others back again is fatal and changes nothing. -/
theorem damage_detected (limit : Option Nat) (budget : Nat) (deeds : List Deed)
    (sizes : Array Nat) :
    let k := after limit budget deeds
    let s : Session := ⟨.shielded k.quarantine, sizes⟩
    (∀ x ∈ k.out ++ k.held, ∀ (offset : Int) byte, -16 ≤ offset → offset < x.bytes + 16 →
      s.allocator.poke x.block offset byte =
        .shielded (k.serve (.poke x.block offset byte)).quarantine) ∧
    (∀ x ∈ k.out,
      ((∃ cause, (s.free x.block x.bytes).outcome = .failure (.fatal cause)) ↔ x.Damaged) ∧
      (x.Damaged → s.free x.block x.bytes = s.reportDamage x.bytes) ∧
      (¬x.Damaged →
        s.free x.block x.bytes = ⟨⟨.shielded (k.takeBack x).quarantine, sizes⟩, .nothing, []⟩ ∧
        k.serve (.free x.block) = k.takeBack x ∧
        ∀ place < x.span,
          ((k.takeBack x).quarantine.inner.bytesOf x.block).read place = freedByte)) ∧
    k.quarantine.held = k.held.map Lot.record ∧
    s.allocator.corruptedBlocks = k.held.countP (fun x => decide x.Corrupted) ∧
    ∀ x ∈ k.held, ¬x.Corrupted → s.free x.block x.bytes = s.reportDamage x.bytes := by
  have hdisplays := displays_after limit budget deeds
  have hacc := accounted_after limit budget deeds
  -- All that matters of the deeds is what the books display after them.
  generalize after limit budget deeds = k at *
  intro k s
  have hdamaged : ∀ x ∈ k.out, x.Damaged → s.free x.block x.bytes = s.reportDamage x.bytes :=
    fun x hx hdamage => Session.free_of_damaged (fault?_of_lot_damaged hacc hdisplays hx hdamage)
  have hintact : ∀ x ∈ k.out, ¬x.Damaged →
      s.free x.block x.bytes = ⟨⟨.shielded (k.takeBack x).quarantine, sizes⟩, .nothing, []⟩ :=
    fun x hx hdamage => Session.free_of_intact (fault?_of_not_damaged hacc hdisplays hx hdamage)
      (hacc.takeBack hx).holds.strays
  refine ⟨fun x hx offset byte => serve_poke hacc hx,
    fun x hx => ⟨⟨?_, fun hdamage => ?_⟩, hdamaged x hx, fun hdamage => ?_⟩, hacc.held,
    corruptedBlocks_eq hacc hdisplays, fun x hx hclean =>
      Session.free_of_damaged (fault?_of_held hacc hdisplays hx hclean)⟩
  · rintro ⟨cause, hcause⟩
    by_contra hdamage
    rw [hintact x hx hdamage] at hcause
    cases hcause
  · rw [hdamaged x hx hdamage]
    exact ⟨_, rfl⟩
  · have hfault := fault?_of_not_damaged hacc hdisplays hx hdamage
    exact ⟨hintact x hx hdamage, serve_free hacc hx hfault, fun place hplace =>
      read_takeBack hacc hx hplace⟩

/-- Two blocks are held back, and a byte of the second was written to and written back, while one of
the first is not poison any more. -/
example :
    let k := after none 1000 [.alloc 8 (some 65536), .alloc 8 (some 65680), .free 0, .free 1,
      .poke 0 23 0, .poke 1 (-16) 0, .poke 1 (-16) freedByte];
    k.quarantine.corruptedBlocks = 1 := by
  decide +kernel

end Books

end HybridHeap.Memory
