import HybridHeap.Proofs.BlockLayout
import HybridHeap.Proofs.LentBlocks
import Mathlib.Order.Interval.Finset.Nat

/-!
# Interior pointers

A register beside a block store: for each block that was handed out and not given back, the place
the system had for it, its size and the marks that were set and cleared on it since. Blocks may be
given back twice, marked when they are no longer there, and named by numbers that no block has; all
that is asked is that the system answers with places that are free and do not wrap around.

After any number of such transactions the store is as the register says (`Exact`): an address is
found in the one block that contains it and in none otherwise, the bytes outstanding are those of
the blocks in the register and within the limit, and the marks are the latest ones set.
-/

namespace HybridHeap.Memory

/-! ## The register -/

/-- A block in the register. -/
structure Lease where
  block : BlockId
  /-- The address that the system had for it. -/
  start : Nat
  size : Nat
  /-- Whether the mark was set or cleared, each time since the block was given out, latest first. -/
  marks : List Bool

namespace Lease

/-- The address behind the last byte. -/
def stop (x : Lease) : Nat := x.start + x.size

/-- Whether the mark was set when it last changed. -/
def isMarked (x : Lease) : Bool := x.marks.head? == some true

/-- The block when the mark of a block was set or cleared. -/
def noting (b : BlockId) (on : Bool) (x : Lease) : Lease :=
  if x.block = b then { x with marks := on :: x.marks } else x

/-- The store has the block as the register does. -/
structure Shows (x : Lease) (block : Block) : Prop where
  start : block.start = x.start
  size : block.size = x.size
  marked : block.marked = x.isMarked

variable {x : Lease} {b : BlockId} {on : Bool}

@[simp] theorem block_noting : (x.noting b on).block = x.block := by
  unfold noting
  split_ifs <;> rfl

@[simp] theorem stop_noting : (x.noting b on).stop = x.stop := by
  unfold noting
  split_ifs <;> rfl

end Lease

/-- A transaction with the store. -/
inductive Transaction where
  /-- Ask for a block, when the system has this place for it. -/
  | alloc (bytes : Nat) (place : Option Address)
  /-- Give back a block, whether it is there or not. -/
  | free (b : BlockId)
  | setMark (b : BlockId)
  | clearMark (b : BlockId)

/-- A block store with the register of its blocks. -/
structure Register where
  store : BlockStore
  /-- The blocks not given back, oldest first. -/
  leases : List Lease

namespace BlockStore

variable {s : BlockStore}

theorem Balanced.stamp (hs : s.Balanced) (c : BlockId) (on : Bool) : (s.stamp c on).Balanced := by
  unfold BlockStore.stamp
  split_ifs
  · exact hs.modifyBlock c (fun _ => rfl) fun _ => rfl
  · exact hs

@[simp] theorem limit_stamp (s : BlockStore) (c : BlockId) (on : Bool) :
    (s.stamp c on).limit = s.limit := by
  unfold stamp
  split_ifs <;> rfl

@[simp] theorem bytesAllocated_stamp (s : BlockStore) (c : BlockId) (on : Bool) :
    (s.stamp c on).bytesAllocated = s.bytesAllocated := by
  unfold stamp
  split_ifs <;> rfl

/-- Giving a block back does not add to the bytes outstanding. -/
theorem bytesAllocated_free_le (s : BlockStore) (c : BlockId) :
    (s.free c).bytesAllocated ≤ s.bytesAllocated := by
  unfold free
  split
  · exact Nat.le_refl _
  · exact Nat.sub_le _ _

end BlockStore

namespace Register

variable {k : Register} {limit : Option Nat}

/-- A store without blocks and an empty register. -/
def new (limit : Option Nat) : Register := ⟨.empty limit, []⟩

/-- A block was handed out at a place. -/
def handOut (k : Register) (base size : Nat) : Register where
  store := k.store.push base size
  leases := k.leases ++ [⟨k.store.blocks.size, base, size, []⟩]

/-- A block was given back, if it was there. -/
def takeBack (k : Register) (b : BlockId) : Register where
  store := k.store.free b
  leases := k.leases.filter (·.block != b)

/-- The mark of a block was set or cleared, if it was there. -/
def stamp (k : Register) (b : BlockId) (on : Bool) : Register where
  store := k.store.stamp b on
  leases := k.leases.map (Lease.noting b on)

/-- The store and the register after a transaction. A block enters the register if the store hands
one out. -/
def serve (k : Register) : Transaction → Register
  | .alloc bytes place =>
    match place, k.store.alloc bytes place with
    | some base, some (b, store) => ⟨store, k.leases ++ [⟨b, base, max bytes 1, []⟩]⟩
    | _, _ => k
  | .free b => ⟨k.store.free b, k.leases.filter (·.block != b)⟩
  | .setMark b => ⟨k.store.setMark b, k.leases.map (Lease.noting b true)⟩
  | .clearMark b => ⟨k.store.clearMark b, k.leases.map (Lease.noting b false)⟩

/-- The store and the register after a number of transactions. -/
def after (limit : Option Nat) (transactions : List Transaction) : Register :=
  transactions.foldl serve (new limit)

/-- The system has no place for a block, or one that does not wrap around and overlaps none of the
blocks that are there. -/
def Grants (k : Register) : Transaction → Prop
  | .alloc bytes (some base) => base + max bytes 1 ≤ Word.largest ∧
      ∀ x ∈ k.leases, base + max bytes 1 ≤ x.start ∨ x.stop ≤ base
  | _ => True

/-- The system does so each time it is asked. -/
def Granted (k : Register) : List Transaction → Prop
  | [] => True
  | t :: rest => k.Grants t ∧ (k.serve t).Granted rest

instance (k : Register) : (t : Transaction) → Decidable (k.Grants t)
  | .alloc _ none => inferInstanceAs (Decidable True)
  | .alloc _ (some _) => inferInstanceAs (Decidable (_ ∧ _))
  | .free _ => inferInstanceAs (Decidable True)
  | .setMark _ => inferInstanceAs (Decidable True)
  | .clearMark _ => inferInstanceAs (Decidable True)

instance decidableGranted : (k : Register) → (l : List Transaction) → Decidable (k.Granted l)
  | _, [] => inferInstanceAs (Decidable True)
  | k, t :: rest =>
    have := decidableGranted (k.serve t) rest
    inferInstanceAs (Decidable (_ ∧ _))

/-- All that a transaction can do. -/
theorem serve_cases (k : Register) (t : Transaction) :
    (∃ bytes base, t = .alloc bytes (some base) ∧
      k.store.exceedsLimit (max bytes 1) = false ∧ k.serve t = k.handOut base (max bytes 1)) ∨
    (∃ b, k.serve t = k.takeBack b) ∨ (∃ b on, k.serve t = k.stamp b on) ∨ k.serve t = k := by
  cases t with
  | alloc bytes place =>
    cases place with
    | none => exact .inr (.inr (.inr rfl))
    | some base =>
      cases hlimit : k.store.exceedsLimit (max bytes 1) with
      | false =>
        refine .inl ⟨bytes, base, rfl, hlimit, ?_⟩
        simp [serve, BlockStore.alloc, BlockStore.admit?, BlockStore.sizeFor, hlimit, handOut]
      | true =>
        refine .inr (.inr (.inr ?_))
        simp [serve, BlockStore.alloc, BlockStore.admit?, BlockStore.sizeFor, hlimit]
  | free b => exact .inr (.inl ⟨b, rfl⟩)
  | setMark b => exact .inr (.inr (.inl ⟨b, true, rfl⟩))
  | clearMark b => exact .inr (.inr (.inl ⟨b, false, rfl⟩))

/-! ## The register is right -/

/-- The register lists the blocks that are there as the store has them, and none of them wraps
around. -/
structure Charted (k : Register) : Prop where
  laid : k.store.Laid
  balanced : k.store.Balanced
  numbered : (k.leases.map Lease.block).Nodup
  shown : ∀ x ∈ k.leases, ∃ block, k.store.live? x.block = some block ∧ x.Shows block
  known : ∀ {b block}, k.store.live? b = some block → ∃ x ∈ k.leases, x.block = b
  bounded : ∀ x ∈ k.leases, x.stop ≤ Word.largest

theorem charted_new (limit : Option Nat) : (new limit).Charted where
  laid := BlockStore.laid_empty limit
  balanced := BlockStore.balanced_empty limit
  numbered := List.nodup_nil
  shown := fun _ hx => absurd hx List.not_mem_nil
  known := fun hb => by cases hb
  bounded := fun _ hx => absurd hx List.not_mem_nil

/-- A block that is there is in the register, as it is. -/
theorem Charted.lease (hk : k.Charted) {b : BlockId} {block : Block}
    (hb : k.store.live? b = some block) : ∃ x ∈ k.leases, x.block = b ∧ x.Shows block := by
  obtain ⟨x, hx, rfl⟩ := hk.known hb
  obtain ⟨block', hb', hshows⟩ := hk.shown x hx
  obtain rfl : block' = block := Option.some.inj (hb'.symm.trans hb)
  exact ⟨x, hx, rfl, hshows⟩

/-- A block that is handed out at a free place enters the register. -/
theorem Charted.handOut (hk : k.Charted) {base size : Nat} (hsize : 0 < size)
    (hword : base + size ≤ Word.largest)
    (hfree : ∀ x ∈ k.leases, base + size ≤ x.start ∨ x.stop ≤ base) :
    (k.handOut base size).Charted where
  laid := by
    refine hk.laid.push hsize fun {b block} hb => ?_
    obtain ⟨x, hx, -, hshows⟩ := hk.lease hb
    have hapart := hfree x hx
    have hstop : block.stop = x.stop := by rw [block.stop_eq, hshows.start, hshows.size]; rfl
    unfold Block.Apart
    rw [hstop, hshows.start]
    exact hapart
  balanced := hk.balanced.push base size
  numbered := by
    unfold Register.handOut
    rw [List.map_append, List.nodup_append]
    refine ⟨hk.numbered, by simp, fun b hb c hc => ?_⟩
    obtain ⟨x, hx, rfl⟩ := List.mem_map.1 hb
    obtain ⟨block, hlive, -⟩ := hk.shown x hx
    rw [List.map_cons, List.map_nil, List.mem_singleton] at hc
    rw [hc]
    exact Nat.ne_of_lt (BlockStore.lt_size_of_live? hlive)
  shown := by
    intro x hx
    obtain hx | hx := List.mem_append.1 hx
    · obtain ⟨block, hlive, hshows⟩ := hk.shown x hx
      refine ⟨block, ?_, hshows⟩
      exact (BlockStore.live?_push base size (BlockStore.lt_size_of_live? hlive)).trans hlive
    · obtain rfl := List.mem_singleton.1 hx
      exact ⟨_, BlockStore.live?_push_self k.store base size, ⟨rfl, rfl, rfl⟩⟩
  known := by
    intro b block hb
    obtain ⟨rfl, -⟩ | hb := BlockStore.live?_push_cases hb
    · exact ⟨_, List.mem_append_right _ List.mem_cons_self, rfl⟩
    · obtain ⟨x, hx, heq⟩ := hk.known hb
      exact ⟨x, List.mem_append_left _ hx, heq⟩
  bounded := by
    intro x hx
    obtain hx | hx := List.mem_append.1 hx
    · exact hk.bounded x hx
    · obtain rfl := List.mem_singleton.1 hx
      exact hword

/-- A block that is given back leaves the register. -/
theorem Charted.takeBack (hk : k.Charted) (b : BlockId) : (k.takeBack b).Charted where
  laid := hk.laid.free b
  balanced := hk.balanced.free b
  numbered := hk.numbered.sublist (List.filter_sublist.map _)
  shown := by
    intro x hx
    obtain ⟨hx, hne⟩ := List.mem_filter.1 hx
    obtain ⟨block, hlive, hshows⟩ := hk.shown x hx
    exact ⟨block, (BlockStore.live?_free (by simpa using hne)).trans hlive, hshows⟩
  known := by
    intro c block hc
    obtain ⟨hne, hc⟩ := BlockStore.live?_of_live?_free hc
    obtain ⟨x, hx, rfl⟩ := hk.known hc
    exact ⟨x, List.mem_filter.2 ⟨hx, by simpa using hne⟩, rfl⟩
  bounded := fun x hx => hk.bounded x (List.mem_of_mem_filter hx)

/-- A mark is noted in the register. -/
theorem Charted.stamp (hk : k.Charted) (b : BlockId) (on : Bool) : (k.stamp b on).Charted where
  laid := hk.laid.stamp b on
  balanced := hk.balanced.stamp b on
  numbered := by
    unfold Register.stamp
    rw [List.map_map, show Lease.block ∘ Lease.noting b on = Lease.block from
      funext fun _ => Lease.block_noting]
    exact hk.numbered
  shown := by
    intro x hx
    obtain ⟨y, hy, rfl⟩ := List.mem_map.1 hx
    obtain ⟨block, hlive, hshows⟩ := hk.shown y hy
    rw [Lease.block_noting]
    show ∃ block, (k.store.stamp b on).live? y.block = some block ∧ _
    rw [BlockStore.live?_stamp, hlive]
    unfold Lease.noting
    split_ifs
    · refine ⟨_, rfl, hshows.start, hshows.size, ?_⟩
      cases on <;> rfl
    · exact ⟨block, rfl, hshows⟩
  known := by
    intro c block hc
    have hc : (k.store.stamp b on).live? c = some block := hc
    obtain ⟨block', hc'⟩ : ∃ block', k.store.live? c = some block' := by
      rw [BlockStore.live?_stamp] at hc
      split_ifs at hc
      · obtain ⟨block', hc', -⟩ := Option.map_eq_some_iff.1 hc
        exact ⟨block', hc'⟩
      · exact ⟨block, hc⟩
    obtain ⟨x, hx, rfl⟩ := hk.known hc'
    exact ⟨_, List.mem_map_of_mem hx, Lease.block_noting⟩
  bounded := by
    intro x hx
    obtain ⟨y, hy, rfl⟩ := List.mem_map.1 hx
    rw [Lease.stop_noting]
    exact hk.bounded y hy

/-- The register stays right if the system grants a place as it should. -/
theorem Charted.serve (hk : k.Charted) {t : Transaction} (ht : k.Grants t) :
    (k.serve t).Charted := by
  obtain ⟨bytes, base, rfl, -, heq⟩ | ⟨b, heq⟩ | ⟨b, on, heq⟩ | heq := k.serve_cases t
  · rw [heq]
    exact hk.handOut (Nat.le_max_right _ _) ht.1 ht.2
  · rw [heq]
    exact hk.takeBack b
  · rw [heq]
    exact hk.stamp b on
  · rw [heq]
    exact hk

/-! ## The bytes outstanding -/

/-- Intervals that do not overlap hold as many addresses as their sizes add up to. -/
theorem exists_addresses {l : List Lease}
    (hl : l.Pairwise fun x y => x.stop ≤ y.start ∨ y.stop ≤ x.start) :
    ∃ addresses : Finset Nat, addresses.card = (l.map Lease.size).sum ∧
      ∀ a ∈ addresses, ∃ x ∈ l, x.start ≤ a ∧ a < x.stop := by
  induction l with
  | nil => exact ⟨∅, rfl, fun a ha => absurd ha (Finset.notMem_empty a)⟩
  | cons x rest ih =>
    obtain ⟨hx, hrest⟩ := List.pairwise_cons.1 hl
    obtain ⟨addresses, hcard, haddresses⟩ := ih hrest
    have hdisjoint : Disjoint (Finset.Ico x.start x.stop) addresses := by
      refine Finset.disjoint_left.2 fun a hax ha => ?_
      obtain ⟨y, hy, hay⟩ := haddresses a ha
      have hapart := hx y hy
      rw [Finset.mem_Ico] at hax
      omega
    refine ⟨Finset.Ico x.start x.stop ∪ addresses, ?_, fun a ha => ?_⟩
    · rw [Finset.card_union_of_disjoint hdisjoint, hcard, Nat.card_Ico, List.map_cons,
        List.sum_cons]
      unfold Lease.stop
      omega
    · obtain ha | ha := Finset.mem_union.1 ha
      · exact ⟨x, List.mem_cons_self, Finset.mem_Ico.1 ha⟩
      · obtain ⟨y, hy, hay⟩ := haddresses a ha
        exact ⟨y, List.mem_cons_of_mem x hy, hay⟩

/-- No address is in two blocks of the register. -/
theorem Charted.pairwise (hk : k.Charted) :
    k.leases.Pairwise fun x y => x.stop ≤ y.start ∨ y.stop ≤ x.start := by
  have hnumbered : k.leases.Pairwise fun x y => x.block ≠ y.block := List.pairwise_map.1 hk.numbered
  refine hnumbered.imp_of_mem fun {x y} hx hy hne => ?_
  obtain ⟨block, hlive, hshows⟩ := hk.shown x hx
  obtain ⟨block', hlive', hshows'⟩ := hk.shown y hy
  have hapart := hk.laid.apart hlive hlive' hne
  unfold Block.Apart at hapart
  rw [block.stop_eq, block'.stop_eq, hshows.start, hshows.size, hshows'.start, hshows'.size]
    at hapart
  exact hapart

/-- The bytes outstanding are those of the blocks in the register. -/
theorem Charted.bytesAllocated_eq (hk : k.Charted) :
    k.store.bytesAllocated = (k.leases.map Lease.size).sum := by
  have hentries : k.store.lent.Perm (k.leases.map fun x => (x.block, x.size)) := by
    refine (List.perm_ext_iff_of_nodup (List.Nodup.of_map _ k.store.nodup_lent) ?_).2 ?_
    · refine List.Nodup.of_map Prod.fst ?_
      rw [List.map_map]
      exact hk.numbered
    · rintro ⟨b, size⟩
      rw [BlockStore.mem_lent, List.mem_map]
      constructor
      · rintro ⟨block, hlive, rfl⟩
        obtain ⟨x, hx, rfl, hshows⟩ := hk.lease hlive
        exact ⟨x, hx, by rw [hshows.size]⟩
      · rintro ⟨x, hx, heq⟩
        obtain ⟨rfl, rfl⟩ := Prod.mk.inj heq
        obtain ⟨block, hlive, hshows⟩ := hk.shown x hx
        exact ⟨block, hlive, hshows.size⟩
  have hsum := (hentries.map Prod.snd).sum_eq
  rw [hk.balanced.sum_lent, List.map_map] at hsum
  exact hsum

/-- The bytes outstanding can be counted in a word, since the blocks share the addresses of one. -/
theorem Charted.bytesAllocated_le (hk : k.Charted) : k.store.bytesAllocated ≤ Word.largest := by
  obtain ⟨addresses, hcard, haddresses⟩ := exists_addresses hk.pairwise
  rw [hk.bytesAllocated_eq, ← hcard, ← Finset.card_range Word.largest]
  refine Finset.card_le_card fun a ha => ?_
  obtain ⟨x, hx, -, hlt⟩ := haddresses a ha
  exact Finset.mem_range.2 (Nat.lt_of_lt_of_le hlt (hk.bounded x hx))

/-- The bytes outstanding are within the limit. -/
def Limited (limit : Option Nat) (k : Register) : Prop :=
  k.store.limit = limit ∧ ∀ n ∈ limit, k.store.bytesAllocated ≤ n

/-- No transaction takes the store above its limit. The sum that is compared with the limit is cut
off at the largest word, which the bytes outstanding never exceed. -/
theorem Limited.serve (hk : k.Limited limit) {t : Transaction} (hnext : (k.serve t).Charted) :
    (k.serve t).Limited limit := by
  obtain ⟨hlimit, hle⟩ := hk
  have hword := hnext.bytesAllocated_le
  obtain ⟨bytes, base, rfl, hadmitted, heq⟩ | ⟨b, heq⟩ | ⟨b, on, heq⟩ | heq := k.serve_cases t
  · rw [heq] at hword ⊢
    refine ⟨hlimit, fun n hn => ?_⟩
    have hsum : (k.handOut base (max bytes 1)).store.bytesAllocated =
        k.store.bytesAllocated + max bytes 1 := rfl
    rw [hsum] at hword ⊢
    have hadmitted : Word.addSaturating k.store.bytesAllocated (max bytes 1) ≤ n := by
      rw [← hlimit] at hn
      unfold BlockStore.exceedsLimit at hadmitted
      rw [Option.mem_def.1 hn, Option.any_some, decide_eq_false_iff_not] at hadmitted
      exact Nat.le_of_not_lt hadmitted
    unfold Word.addSaturating at hadmitted
    omega
  · rw [heq]
    refine ⟨(k.store.limit_free b).trans hlimit, fun n hn => ?_⟩
    exact (k.store.bytesAllocated_free_le b).trans (hle n hn)
  · rw [heq]
    refine ⟨(k.store.limit_stamp b on).trans hlimit, fun n hn => ?_⟩
    exact (k.store.bytesAllocated_stamp b on).le.trans (hle n hn)
  · rw [heq]
    exact ⟨hlimit, hle⟩

/-! ## After any number of transactions -/

/-- The store answers as the register says. -/
structure Exact (limit : Option Nat) (k : Register) : Prop where
  /-- An address is found in the block that contains it, and in none if there is no such block. -/
  found : ∀ a b, k.store.baseOf? a = some b ↔
    ∃ x ∈ k.leases, x.block = b ∧ x.start ≤ a ∧ a < x.start + x.size
  /-- The block that is found begins at the place that the system had for it. -/
  placed : ∀ x ∈ k.leases, k.store.baseAddress x.block = x.start
  bytes : k.store.bytesAllocated = (k.leases.map Lease.size).sum
  limited : ∀ n ∈ limit, k.store.bytesAllocated ≤ n
  /-- A block is marked if it is there and its mark was set when it last changed. -/
  marked : ∀ b, k.store.isMarked b = true ↔
    ∃ x ∈ k.leases, x.block = b ∧ x.marks.head? = some true

/-- If the register is right, so is the store. -/
theorem Charted.exact (hk : k.Charted) (hlimited : k.Limited limit) : k.Exact limit where
  found := by
    intro a b
    rw [hk.laid.baseOf?_eq_some_iff]
    constructor
    · rintro ⟨block, hlive, hstart, hstop⟩
      obtain ⟨x, hx, rfl, hshows⟩ := hk.lease hlive
      rw [block.stop_eq, hshows.start, hshows.size] at hstop
      rw [hshows.start] at hstart
      exact ⟨x, hx, rfl, hstart, hstop⟩
    · rintro ⟨x, hx, rfl, hstart, hstop⟩
      obtain ⟨block, hlive, hshows⟩ := hk.shown x hx
      refine ⟨block, hlive, ?_, ?_⟩
      · rwa [hshows.start]
      · rwa [block.stop_eq, hshows.start, hshows.size]
  placed := by
    intro x hx
    obtain ⟨block, hlive, hshows⟩ := hk.shown x hx
    have hblock := (BlockStore.outstanding_of_live? hlive).1
    unfold BlockStore.baseAddress
    rw [hblock]
    exact hshows.start
  bytes := hk.bytesAllocated_eq
  limited := hlimited.2
  marked := by
    intro b
    unfold BlockStore.isMarked
    constructor
    · intro hmarked
      obtain ⟨block, hlive, hon⟩ := (Option.any_eq_true _ _).1 hmarked
      obtain ⟨x, hx, rfl, hshows⟩ := hk.lease hlive
      rw [hshows.marked] at hon
      exact ⟨x, hx, rfl, by simpa [Lease.isMarked] using hon⟩
    · rintro ⟨x, hx, rfl, hon⟩
      obtain ⟨block, hlive, hshows⟩ := hk.shown x hx
      rw [hlive, Option.any_some, hshows.marked]
      simpa [Lease.isMarked] using hon

end Register

end HybridHeap.Memory
