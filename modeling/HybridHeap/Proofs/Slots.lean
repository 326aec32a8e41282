import HybridHeap.Collector.LiteSweep
import Mathlib.Algebra.Order.Ring.Nat
import Mathlib.Data.List.Nodup
import Mathlib.Data.List.Perm.Basic

/-!
# Sound slot tables

A slot table is sound when its free list enumerates its empty slots without repetition and its size
is the number of its entries. Every operation on a table keeps it sound, changes what is in one slot
at most, and adds or removes one entry; only expiring weak entries goes over the whole table, and it
keeps every slot as occupied as it was.

Whoever has inserted an entry owns its slot until it vacates it. A table that is owned has no other
entries than those of its owners, each in its own slot.
-/

namespace HybridHeap

namespace SlotTable

variable {α : Type} {t : SlotTable α}

/-- The free list enumerates the empty slots, and the size is the number of entries. -/
structure Sound (t : SlotTable α) : Prop where
  nodup : t.free.Nodup
  mem_free : ∀ slot, slot ∈ t.free ↔ t.slots[slot]? = some none
  size_eq : t.size = t.toList.length

/-- A table without slots is sound. -/
theorem sound_empty : (empty : SlotTable α).Sound where
  nodup := List.nodup_nil
  mem_free := fun slot => by simp [empty]
  size_eq := rfl

/-- What a table without slots looks like. -/
theorem eq_empty_iff : t = empty ↔ t.slots.size = 0 ∧ t.free = [] ∧ t.size = 0 := by
  obtain ⟨slots, free, size⟩ := t
  simp [empty]

instance : Decidable (t = empty) := decidable_of_iff' _ eq_empty_iff

/-- A slot has an entry when there is one in the table. -/
theorem get?_eq_some_iff {slot : Nat} {a : α} :
    t.get? slot = some a ↔ t.slots[slot]? = some (some a) := by
  unfold get?
  cases t.slots[slot]? with
  | none => simp
  | some entry => simp

/-- The entries with their slots are what the slots have. -/
theorem mem_entries {slot : Nat} {a : α} : (slot, a) ∈ t.entries ↔ t.get? slot = some a := by
  unfold entries
  simp only [List.mem_filterMap, Prod.exists, Option.map_eq_some_iff,
    List.mk_mem_zipIdx_iff_getElem?, Array.getElem?_toList, Prod.mk.injEq, get?_eq_some_iff]
  constructor
  · rintro ⟨entry, i, hi, b, rfl, rfl, rfl⟩
    exact hi
  · intro hslot
    exact ⟨some a, slot, hslot, a, rfl, rfl, rfl⟩

/-- The entries are what the slots have. -/
theorem mem_toList {a : α} : a ∈ t.toList ↔ ∃ slot, t.get? slot = some a := by
  unfold toList
  rw [List.mem_filterMap]
  constructor
  · rintro ⟨entry, hmem, rfl⟩
    obtain ⟨slot, hslot⟩ := List.mem_iff_getElem?.1 hmem
    exact ⟨slot, get?_eq_some_iff.2 (by rw [← hslot, Array.getElem?_toList])⟩
  · rintro ⟨slot, hslot⟩
    rw [get?_eq_some_iff, ← Array.getElem?_toList] at hslot
    exact ⟨some a, List.mem_iff_getElem?.2 ⟨slot, hslot⟩, rfl⟩

/-- The table whose slot is overwritten has the entries of the other slots and the new one. -/
theorem exists_perm_of_set {slots : Array (Option α)} {slot : Nat} {old : Option α}
    (hslot : slots[slot]? = some old) (new : Option α) :
    ∃ others, (slots.toList.filterMap id).Perm (old.toList ++ others) ∧
      ((slots.setIfInBounds slot new).toList.filterMap id).Perm (new.toList ++ others) := by
  obtain ⟨hlt, hold⟩ := Array.getElem?_eq_some_iff.1 hslot
  obtain ⟨l₁, l₂, hl, -, hset⟩ := @List.exists_of_set _ slot new slots.toList hlt
  rw [Array.getElem_toList, hold] at hl
  have hperm : ∀ x : Option α, ((l₁ ++ x :: l₂).filterMap id).Perm
      (x.toList ++ (l₁.filterMap id ++ l₂.filterMap id)) := by
    intro x
    rw [List.filterMap_append]
    cases x with
    | none => simp
    | some a => simp
  refine ⟨l₁.filterMap id ++ l₂.filterMap id, ?_, ?_⟩
  · rw [hl]
    exact hperm old
  · rw [Array.toList_setIfInBounds, hset]
    exact hperm new

/-! ## Inserting -/

/-- The next slot of a sound table is empty. -/
theorem Sound.get?_nextSlot (ht : t.Sound) : t.get? t.nextSlot = none := by
  unfold nextSlot get?
  cases hfree : t.free with
  | nil => simp
  | cons slot free =>
    have hslot := (ht.mem_free slot).1 (by rw [hfree]; exact List.mem_cons_self)
    simp [hslot]

/-- Inserting an entry occupies the next slot and leaves the others. -/
theorem Sound.get?_insert (ht : t.Sound) (a : α) (slot : Nat) :
    (t.insert a).get? slot = if slot = t.nextSlot then some a else t.get? slot := by
  unfold insert nextSlot get?
  cases hfree : t.free with
  | nil =>
    simp only [Array.getElem?_push, List.head?_nil, Option.getD_none]
    by_cases hslot : slot = t.slots.size
    · simp [hslot]
    · simp [hslot]
  | cons s free =>
    have hs := (ht.mem_free s).1 (by rw [hfree]; exact List.mem_cons_self)
    obtain ⟨hlt, -⟩ := Array.getElem?_eq_some_iff.1 hs
    simp only [Array.getElem?_setIfInBounds, List.head?_cons, Option.getD_some]
    by_cases hslot : slot = s
    · simp [hslot, hlt]
    · simp [hslot, Ne.symm hslot]

/-- Inserting an entry adds it to the entries. -/
theorem Sound.toList_insert (ht : t.Sound) (a : α) : (t.insert a).toList.Perm (a :: t.toList) := by
  unfold insert toList
  cases hfree : t.free with
  | nil => simp [List.filterMap_append]
  | cons s free =>
    have hs := (ht.mem_free s).1 (by rw [hfree]; exact List.mem_cons_self)
    obtain ⟨others, hold, hnew⟩ := exists_perm_of_set hs (some a)
    exact hnew.trans (List.Perm.cons a hold.symm)

/-- What is in a table after an insertion is what was inserted or was there before. -/
theorem mem_of_mem_toList_insert {a b : α}
    (ha : a ∈ (t.insert b).toList) : a = b ∨ a ∈ t.toList := by
  obtain ⟨s, hs⟩ := mem_toList.1 ha
  rw [get?_eq_some_iff] at hs
  unfold insert at hs
  cases hfree : t.free with
  | nil =>
    rw [hfree] at hs
    dsimp only at hs
    rw [Array.getElem?_push] at hs
    split_ifs at hs
    · cases hs
      exact .inl rfl
    · exact .inr (mem_toList.2 ⟨s, get?_eq_some_iff.2 hs⟩)
  | cons slot free =>
    rw [hfree] at hs
    dsimp only at hs
    rw [Array.getElem?_setIfInBounds] at hs
    split_ifs at hs
    · cases hs
      exact .inl rfl
    · exact .inr (mem_toList.2 ⟨s, get?_eq_some_iff.2 hs⟩)

/-- Inserting an entry keeps a table sound. -/
theorem Sound.insert (ht : t.Sound) (a : α) : (t.insert a).Sound where
  nodup := by
    unfold SlotTable.insert
    cases hfree : t.free with
    | nil => exact List.nodup_nil
    | cons s free =>
      have hnodup := ht.nodup
      rw [hfree] at hnodup
      exact hnodup.of_cons
  mem_free := by
    intro slot
    unfold SlotTable.insert
    cases hfree : t.free with
    | nil =>
      have hmem := ht.mem_free slot
      rw [hfree] at hmem
      simp only [Array.getElem?_push, hmem]
      split_ifs with hslot
      · simp [hslot]
      · rfl
    | cons s free =>
      have hmem := ht.mem_free slot
      have hs := (ht.mem_free s).1 (by rw [hfree]; exact List.mem_cons_self)
      obtain ⟨hlt, -⟩ := Array.getElem?_eq_some_iff.1 hs
      have hnodup := ht.nodup
      rw [hfree, List.nodup_cons] at hnodup
      rw [hfree, List.mem_cons] at hmem
      simp only [Array.getElem?_setIfInBounds]
      by_cases hslot : slot = s
      · subst hslot
        simp [hlt, hnodup.1]
      · simpa [hslot, Ne.symm hslot] using hmem
  size_eq := by
    rw [(ht.toList_insert a).length_eq, List.length_cons, ← ht.size_eq]
    unfold SlotTable.insert
    cases t.free <;> rfl

/-! ## Erasing -/

/-- Vacating a slot empties it and leaves the others. -/
theorem get?_erase (t : SlotTable α) (s slot : Nat) :
    (t.erase s).get? slot = if slot = s then none else t.get? slot := by
  unfold erase
  cases hs : t.get? s with
  | none =>
    split_ifs with hslot
    · rw [hslot, hs]
    · rfl
  | some a =>
    obtain ⟨hlt, -⟩ := Array.getElem?_eq_some_iff.1 (get?_eq_some_iff.1 hs)
    simp only [get?, Array.getElem?_setIfInBounds]
    by_cases hslot : slot = s
    · simp [hslot, hlt]
    · simp [hslot, Ne.symm hslot]

/-- Vacating an occupied slot takes its entry from the entries. -/
theorem toList_erase {slot : Nat} {a : α} (ha : t.get? slot = some a) :
    t.toList.Perm (a :: (t.erase slot).toList) := by
  obtain ⟨others, hold, hnew⟩ := exists_perm_of_set (get?_eq_some_iff.1 ha) none
  unfold erase
  rw [ha]
  exact hold.trans (List.Perm.cons a hnew.symm)

/-- Vacating a slot that is not occupied changes nothing. -/
theorem erase_of_get?_eq_none {slot : Nat} (hslot : t.get? slot = none) : t.erase slot = t := by
  unfold erase
  rw [hslot]

/-- What is left after vacating a slot was there before. -/
theorem mem_of_mem_toList_erase {slot : Nat} {a : α} (ha : a ∈ (t.erase slot).toList) :
    a ∈ t.toList := by
  obtain ⟨s, hs⟩ := mem_toList.1 ha
  rw [get?_erase] at hs
  split_ifs at hs
  exact mem_toList.2 ⟨s, hs⟩

/-- Vacating a slot keeps a table sound. -/
theorem Sound.erase (ht : t.Sound) (slot : Nat) : (t.erase slot).Sound := by
  cases hslot : t.get? slot with
  | none => rwa [erase_of_get?_eq_none hslot]
  | some a =>
    have hget := get?_eq_some_iff.1 hslot
    obtain ⟨hlt, -⟩ := Array.getElem?_eq_some_iff.1 hget
    have hlen := (toList_erase hslot).length_eq
    have hsize := ht.size_eq
    unfold SlotTable.erase at hlen ⊢
    rw [hslot] at hlen ⊢
    refine ⟨?_, fun s => ?_, ?_⟩
    · refine List.nodup_cons.2 ⟨fun hmem => ?_, ht.nodup⟩
      rw [ht.mem_free, hget] at hmem
      cases hmem
    · simp only [List.mem_cons, ht.mem_free, Array.getElem?_setIfInBounds]
      by_cases hs : s = slot
      · simp [hs, hlt]
      · simp [hs, Ne.symm hs]
    · simp only [List.length_cons] at hlen
      dsimp only at hlen ⊢
      omega

/-! ## Owners -/

/-- The occupied slots of a sound table are the given ones, each given once. -/
structure OccupiedBy (t : SlotTable α) (slots : List Nat) : Prop extends t.Sound where
  distinct : slots.Nodup
  mem_slots : ∀ slot, slot ∈ slots ↔ (t.get? slot).isSome

namespace OccupiedBy

variable {slots slots' : List Nat}

theorem empty : (empty : SlotTable α).OccupiedBy [] where
  toSound := sound_empty
  distinct := List.nodup_nil
  mem_slots := fun slot => by simp [SlotTable.empty, get?]

/-- It makes no difference in which order the slots are given. -/
theorem perm (ht : t.OccupiedBy slots) (hp : slots'.Perm slots) : t.OccupiedBy slots' where
  toSound := ht.toSound
  distinct := hp.nodup_iff.2 ht.distinct
  mem_slots := fun slot => hp.mem_iff.trans (ht.mem_slots slot)

/-- The next slot has no owner. -/
theorem nextSlot_not_mem (ht : t.OccupiedBy slots) : t.nextSlot ∉ slots := fun hmem => by
  have hsome := (ht.mem_slots _).1 hmem
  rw [ht.get?_nextSlot] at hsome
  cases hsome

/-- An entry that is inserted occupies the next slot besides. -/
theorem insert (ht : t.OccupiedBy slots) (a : α) :
    (t.insert a).OccupiedBy (t.nextSlot :: slots) where
  toSound := ht.toSound.insert a
  distinct := List.nodup_cons.2 ⟨ht.nextSlot_not_mem, ht.distinct⟩
  mem_slots := fun slot => by
    rw [ht.get?_insert, List.mem_cons, ht.mem_slots]
    split_ifs with hslot <;> simp [hslot]

/-- A slot that is vacated is occupied no longer. -/
theorem erase {slot : Nat} (ht : t.OccupiedBy (slot :: slots)) :
    (t.erase slot).OccupiedBy slots where
  toSound := ht.toSound.erase slot
  distinct := (List.nodup_cons.1 ht.distinct).2
  mem_slots := fun s => by
    have hmem := ht.mem_slots s
    rw [List.mem_cons] at hmem
    rw [get?_erase]
    split_ifs with hs
    · simp [hs, (List.nodup_cons.1 ht.distinct).1]
    · rw [← hmem, or_iff_right hs]

end OccupiedBy

/-- Each owner has a slot of its own with its own entry in it, and no other slot is occupied. -/
structure OwnedBy (t : SlotTable α) (owners : List (Nat × α)) : Prop
    extends t.OccupiedBy (owners.map Prod.fst) where
  own : ∀ x ∈ owners, t.get? x.1 = some x.2

namespace OwnedBy

variable {owners owners' : List (Nat × α)}

theorem empty : (empty : SlotTable α).OwnedBy [] where
  toOccupiedBy := .empty
  own := fun _ hx => (List.not_mem_nil hx).elim

/-- It makes no difference in which order the owners are given. -/
theorem perm (ht : t.OwnedBy owners) (hp : owners'.Perm owners) : t.OwnedBy owners' where
  toOccupiedBy := ht.toOccupiedBy.perm (hp.map Prod.fst)
  own := fun x hx => ht.own x (hp.mem_iff.1 hx)

/-- Whoever inserts an entry owns the slot that it goes into. -/
theorem insert (ht : t.OwnedBy owners) (a : α) :
    (t.insert a).OwnedBy ((t.nextSlot, a) :: owners) where
  toOccupiedBy := ht.toOccupiedBy.insert a
  own := fun x hx => by
    rw [ht.get?_insert]
    obtain rfl | hx := List.mem_cons.1 hx
    · exact if_pos rfl
    · have hne : x.1 ≠ t.nextSlot := fun heq =>
        ht.nextSlot_not_mem (List.mem_map.2 ⟨x, hx, heq⟩)
      rw [if_neg hne, ht.own x hx]

/-- Whoever vacates its slot owns none any more, and the others keep theirs. -/
theorem erase {slot : Nat} {a : α} (ht : t.OwnedBy ((slot, a) :: owners)) :
    (t.erase slot).OwnedBy owners where
  toOccupiedBy := ht.toOccupiedBy.erase
  own := fun x hx => by
    have hne : x.1 ≠ slot := fun heq =>
      (List.nodup_cons.1 ht.distinct).1 (List.mem_map.2 ⟨x, hx, heq⟩)
    rw [get?_erase, if_neg hne, ht.own x (List.mem_cons_of_mem _ hx)]

end OwnedBy

/-- No slot is listed twice among the entries. -/
theorem nodup_slots_entries (t : SlotTable α) : (t.entries.map Prod.fst).Nodup := by
  have hslots : (t.slots.toList.zipIdx.map Prod.snd).Nodup := by
    rw [List.zipIdx_map_snd]
    exact List.nodup_range'
  refine List.pairwise_map.2 ((List.pairwise_map.1 hslots).filterMap _ ?_)
  rintro ⟨x, i⟩ ⟨y, j⟩ hne _ hx _ hy
  obtain ⟨_, -, rfl⟩ := Option.map_eq_some_iff.1 hx
  obtain ⟨_, -, rfl⟩ := Option.map_eq_some_iff.1 hy
  exact hne

/-- The entries are the owners, in the order of their slots. -/
theorem OwnedBy.entries_perm {owners : List (Nat × α)} (ht : t.OwnedBy owners) :
    t.entries.Perm owners := by
  refine (List.perm_ext_iff_of_nodup (List.Nodup.of_map Prod.fst t.nodup_slots_entries)
    (List.Nodup.of_map Prod.fst ht.distinct)).2 fun ⟨slot, a⟩ => ?_
  rw [mem_entries]
  refine ⟨fun hget => ?_, ht.own _⟩
  have hmem := (ht.mem_slots slot).2 (by rw [hget]; rfl)
  obtain ⟨x, hx, rfl⟩ := List.mem_map.1 hmem
  have hown := ht.own x hx
  rw [hget] at hown
  cases hown
  exact hx

/-- The entries without their slots. -/
theorem map_snd_entries (t : SlotTable α) : t.entries.map Prod.snd = t.toList := by
  unfold entries toList
  rw [List.map_filterMap]
  conv_rhs => rw [← List.zipIdx_map_fst 0 t.slots.toList, List.filterMap_map]
  refine List.filterMap_congr fun x _ => ?_
  obtain ⟨entry, slot⟩ := x
  cases entry <;> rfl

/-- What is in the table is what its owners have put there, once for each. -/
theorem OwnedBy.toList_perm {owners : List (Nat × α)} (ht : t.OwnedBy owners) :
    t.toList.Perm (owners.map Prod.snd) := by
  rw [← map_snd_entries]
  exact ht.entries_perm.map Prod.snd

/-- The size of a table is the number of its owners. -/
theorem OwnedBy.size_eq_length {owners : List (Nat × α)} (ht : t.OwnedBy owners) :
    t.size = owners.length := by
  rw [ht.size_eq, ht.toList_perm.length_eq, List.length_map]

/-- Occupied slots have owners. -/
theorem OccupiedBy.exists_owners {slots : List Nat} (ht : t.OccupiedBy slots) :
    ∃ owners, (owners.map Prod.fst).Perm slots ∧ t.OwnedBy owners := by
  have hslots : (t.entries.map Prod.fst).Perm slots := by
    refine (List.perm_ext_iff_of_nodup t.nodup_slots_entries ht.distinct).2 fun slot => ?_
    rw [ht.mem_slots, Option.isSome_iff_exists, List.mem_map]
    simp only [← mem_entries, Prod.exists, exists_and_right, exists_eq_right]
  exact ⟨t.entries, hslots, ht.perm hslots, fun _ hx => mem_entries.1 hx⟩

end SlotTable

/-! ## Expiring weak entries -/

namespace Collector

variable {t : SlotTable WeakEntry} {p : Nat → WeakEntry → Bool}

/-- Expiring hollows the entries for which `p` holds and leaves the others. -/
theorem get?_expire (p : Nat → WeakEntry → Bool) (t : SlotTable WeakEntry) (slot : Nat) :
    (expire p t).get? slot = (t.get? slot).map fun e => if p slot e then hollow else e := by
  unfold expire SlotTable.get?
  rw [Array.getElem?_mapIdx]
  cases t.slots[slot]? with
  | none => rfl
  | some entry => cases entry <;> rfl

/-- The entries after expiring are the old ones, some of them hollowed. -/
theorem mem_toList_expire {e : WeakEntry} (he : e ∈ (expire p t).toList) :
    e = hollow ∨ e ∈ t.toList := by
  obtain ⟨slot, hslot⟩ := SlotTable.mem_toList.1 he
  rw [get?_expire, Option.map_eq_some_iff] at hslot
  obtain ⟨old, hold, rfl⟩ := hslot
  split_ifs
  · exact .inl rfl
  · exact .inr (SlotTable.mem_toList.2 ⟨slot, hold⟩)

/-- Which entries expire is a matter of the entries in the table only. -/
theorem expire_congr {q : Nat → WeakEntry → Bool}
    (hpq : ∀ slot e, t.get? slot = some e → p slot e = q slot e) : expire p t = expire q t := by
  unfold expire
  congr 1
  refine Array.ext_getElem? fun slot => ?_
  rw [Array.getElem?_mapIdx, Array.getElem?_mapIdx]
  cases hslot : t.slots[slot]? with
  | none => rfl
  | some entry =>
    cases entry with
    | none => rfl
    | some e =>
      have he : t.get? slot = some e := by
        unfold SlotTable.get?
        rw [hslot]
        rfl
      simp [hpq slot e he]

/-- If `p` holds of no entry, none expires. -/
theorem expire_of_forall_not (hp : ∀ slot, ∀ e ∈ t.toList, p slot e = false) : expire p t = t := by
  have hnone : expire p t = expire (fun _ _ => false) t :=
    expire_congr fun slot e he => hp slot e (SlotTable.mem_toList.2 ⟨slot, he⟩)
  rw [hnone]
  unfold expire
  congr 1
  exact Array.ext_getElem? fun slot => by simp

/-- Entries that expire twice expire for either reason. -/
theorem expire_expire {p q : Nat → WeakEntry → Bool} (hp : ∀ slot, p slot hollow = false)
    (t : SlotTable WeakEntry) :
    expire p (expire q t) = expire (fun slot e => q slot e || p slot e) t := by
  unfold expire
  congr 1
  refine Array.ext_getElem? fun slot => ?_
  rw [Array.getElem?_mapIdx, Array.getElem?_mapIdx, Array.getElem?_mapIdx]
  cases t.slots[slot]? with
  | none => rfl
  | some entry =>
    cases entry with
    | none => rfl
    | some e => cases hq : q slot e <;> simp [hq, hp]

/-- The entries of a table, read together with their slots. -/
theorem toList_eq_zipIdx (t : SlotTable WeakEntry) :
    t.toList = t.slots.toList.zipIdx.filterMap Prod.fst := by
  unfold SlotTable.toList
  conv_lhs => rw [← List.zipIdx_map_fst 0 t.slots.toList, List.filterMap_map]
  rfl

/-- The entries after expiring, read together with their slots. -/
theorem toList_expire_eq_zipIdx (p : Nat → WeakEntry → Bool) (t : SlotTable WeakEntry) :
    (expire p t).toList = t.slots.toList.zipIdx.filterMap fun (entry, slot) =>
      entry.map fun e => if p slot e then hollow else e := by
  unfold expire SlotTable.toList
  rw [Array.toList_mapIdx, List.mapIdx_eq_zipIdx_map, List.filterMap_map]
  rfl

/-- Entries that expire stay in their slots. -/
theorem entries_expire (p : Nat → WeakEntry → Bool) (t : SlotTable WeakEntry) :
    (expire p t).entries = t.entries.map fun x => (x.1, if p x.1 x.2 then hollow else x.2) := by
  unfold expire SlotTable.entries
  rw [Array.toList_mapIdx, List.mapIdx_eq_zipIdx_map, List.map_filterMap]
  generalize 0 = start
  induction t.slots.toList generalizing start with
  | nil => rfl
  | cons entry l ih =>
    simp only [List.zipIdx_cons, List.map_cons, List.filterMap_cons, ih]
    cases entry <;> rfl

/-- If it does not depend on the slot, expiring is a function of each entry. -/
theorem toList_expire_of_entry (p : WeakEntry → Bool) (t : SlotTable WeakEntry) :
    (expire (fun _ e => p e) t).toList = t.toList.map fun e => if p e then hollow else e := by
  rw [toList_expire_eq_zipIdx, toList_eq_zipIdx, List.map_filterMap]

/-- What is counted over the entries is what is counted over those that stay and over those that
expire, if nothing is counted for a hollow one. -/
theorem sum_toList_expire (p : Nat → WeakEntry → Bool) (t : SlotTable WeakEntry)
    {g : WeakEntry → Nat} (hg : g hollow = 0) :
    ((expire p t).toList.map g).sum +
      ((t.entries.filter fun x => p x.1 x.2).map fun x => g x.2).sum =
    (t.toList.map g).sum := by
  rw [toList_expire_eq_zipIdx, toList_eq_zipIdx]
  unfold SlotTable.entries
  induction t.slots.toList.zipIdx with
  | nil => rfl
  | cons x l ih =>
    obtain ⟨entry, slot⟩ := x
    cases entry with
    | none => simpa using ih
    | some e =>
      by_cases hp : p slot e = true
      · simp only [List.filterMap_cons, Option.map_some, hp, if_true, List.map_cons, List.sum_cons,
          hg, List.filter_cons] at ih ⊢
        omega
      · simp only [List.filterMap_cons, Option.map_some, hp, if_false, List.map_cons,
          List.sum_cons, List.filter_cons, Bool.false_eq_true] at ih ⊢
        omega

/-- What is found in the entries is found in those that stay and in those that expire, if nothing is
found in a hollow one. -/
theorem perm_filterMap_expire {β : Type} (p : Nat → WeakEntry → Bool) (t : SlotTable WeakEntry)
    {g : WeakEntry → Option β} (hg : g hollow = none) :
    (((t.entries.filter fun x => p x.1 x.2).filterMap fun x => g x.2) ++
      (expire p t).toList.filterMap g).Perm (t.toList.filterMap g) := by
  rw [toList_expire_eq_zipIdx, toList_eq_zipIdx]
  unfold SlotTable.entries
  induction t.slots.toList.zipIdx with
  | nil => exact .refl _
  | cons x l ih =>
    obtain ⟨entry, slot⟩ := x
    cases entry with
    | none => simpa using ih
    | some e =>
      by_cases hp : p slot e = true
      · cases hge : g e with
        | none => simpa [hp, hg, hge] using ih
        | some b => simpa [hp, hg, hge] using ih
      · cases hge : g e with
        | none => simpa [hp, hge] using ih
        | some b => simpa [hp, hge] using List.perm_middle.trans (ih.cons b)

/-- Expiring keeps a table sound. -/
theorem sound_expire (ht : t.Sound) (p : Nat → WeakEntry → Bool) : (expire p t).Sound where
  nodup := ht.nodup
  mem_free := by
    intro slot
    show slot ∈ t.free ↔ _
    rw [ht.mem_free]
    unfold expire
    rw [Array.getElem?_mapIdx]
    cases t.slots[slot]? with
    | none => simp
    | some entry => cases entry <;> simp
  size_eq := by
    show t.size = _
    rw [ht.size_eq, toList_expire_eq_zipIdx, toList_eq_zipIdx, List.length_filterMap_eq_countP,
      List.length_filterMap_eq_countP]
    simp only [Option.isSome_map]

/-- Entries that expire keep their slots occupied. -/
theorem occupiedBy_expire {slots : List Nat} (ht : t.OccupiedBy slots)
    (p : Nat → WeakEntry → Bool) : (expire p t).OccupiedBy slots where
  toSound := sound_expire ht.toSound p
  distinct := ht.distinct
  mem_slots := fun slot => by rw [get?_expire, Option.isSome_map, ht.mem_slots]

/-- What an entry has become when those for which `p` holds have expired. -/
def expireOwner (p : Nat → WeakEntry → Bool) (x : Nat × WeakEntry) : Nat × WeakEntry :=
  (x.1, if p x.1 x.2 then hollow else x.2)

/-- Owners of entries that expire keep their slots, which are hollow then. -/
theorem ownedBy_expire {owners : List (Nat × WeakEntry)} (ht : t.OwnedBy owners)
    (p : Nat → WeakEntry → Bool) : (expire p t).OwnedBy (owners.map (expireOwner p)) where
  toOccupiedBy := by
    have hslots : (owners.map (expireOwner p)).map Prod.fst = owners.map Prod.fst := by
      rw [List.map_map]
      rfl
    rw [hslots]
    exact occupiedBy_expire ht.toOccupiedBy p
  own := fun x hx => by
    obtain ⟨y, hy, rfl⟩ := List.mem_map.1 hx
    rw [get?_expire]
    show (t.get? y.1).map _ = _
    rw [ht.own y hy]
    rfl

end Collector

end HybridHeap
