import HybridHeap.Proofs.Slots

/-!
# What the chronicle says

What the chronicle of a heap has to do with the rest of it, in three parts. The `Ledger` says of
every finalizer in which one place it is: with its weak entry, on its way to the queue, queued, or
discarded. `Current` says what a weak entry tells of its key. The `Accounts` say what the counters
add up to. None of them mentions a heap: each is about the few fields that it depends on, and comes
with one lemma for each way in which these change.
-/

namespace HybridHeap

open Collector

/-! ## The finalizers of a weak table -/

/-- The finalizers that the entries of a weak table still have, by their numbers. -/
def SlotTable.retained (t : SlotTable WeakEntry) : List Nat := t.toList.filterMap WeakEntry.number?

/-- What is found in some members of a list is counted member by member. -/
theorem count_filterMap {α : Type} (f : α → Option Nat) (l : List α) (i : Nat) :
    (l.filterMap f).count i = (l.map fun a => (f a).toList.count i).sum := by
  induction l with
  | nil => rfl
  | cons a l ih =>
    rw [List.map_cons, List.sum_cons, ← ih]
    cases hf : f a with
    | none => simp [hf]
    | some j => simp [hf, List.count_cons, Nat.add_comm]

section

variable {t : SlotTable WeakEntry} {e : WeakEntry} {p : Nat → WeakEntry → Bool} {slot : Nat}

/-- The finalizer of a new entry is retained besides those before. -/
theorem SlotTable.Sound.count_retained_insert (ht : t.Sound) (e : WeakEntry) (i : Nat) :
    (t.insert e).retained.count i = e.number?.toList.count i + t.retained.count i := by
  unfold retained
  have hsum := ((ht.toList_insert e).map fun e => e.number?.toList.count i).sum_nat
  rwa [List.map_cons, List.sum_cons, ← count_filterMap, ← count_filterMap] at hsum

/-- The finalizer of an entry that goes is not retained. -/
theorem SlotTable.count_retained_erase (t : SlotTable WeakEntry) (slot i : Nat) :
    ((t.get? slot).bind WeakEntry.number?).toList.count i + (t.erase slot).retained.count i =
      t.retained.count i := by
  unfold retained
  cases hslot : t.get? slot with
  | none =>
    rw [erase_of_get?_eq_none hslot]
    simp
  | some e =>
    have hsum := ((toList_erase hslot).map fun e => e.number?.toList.count i).sum_nat
    rw [List.map_cons, List.sum_cons, ← count_filterMap, ← count_filterMap] at hsum
    rw [hsum]
    rfl

/-- A finalizer that was retained is left of an entry that expires, or still retained. -/
theorem count_retained_expire (p : Nat → WeakEntry → Bool) (t : SlotTable WeakEntry) (i : Nat) :
    (expire p t).retained.count i + ((expired p t).filterMap Expired.number?).count i =
      t.retained.count i := by
  have hsum := @sum_toList_expire p t (fun e => e.number?.toList.count i) rfl
  unfold SlotTable.retained
  rw [count_filterMap, count_filterMap, count_filterMap, ← hsum]
  unfold expired
  rw [List.map_map]
  rfl

end

/-! ## The ledger of finalizers -/

/-- What had become of finalizers before has not been undone since. -/
def Chronicle.Precedes (c c' : Chronicle) : Prop :=
  c.queued <:+ c'.queued ∧ c.started <:+ c'.started ∧ c.discarded <:+ c'.discarded

namespace Chronicle.Precedes

variable {c c' : Chronicle}

theorem refl (c : Chronicle) : c.Precedes c :=
  ⟨List.suffix_refl _, List.suffix_refl _, List.suffix_refl _⟩

theorem empty (c : Chronicle) : Chronicle.empty.Precedes c :=
  ⟨List.nil_suffix, List.nil_suffix, List.nil_suffix⟩

theorem queue (hc : c.Precedes c') (finalizer : Option Nat) (history : History)
    (phase : Phase) : c.Precedes (c'.queue finalizer history phase) :=
  ⟨hc.1.trans (List.suffix_append _ _), hc.2⟩

theorem start (hc : c.Precedes c') (finalizer : Nat) : c.Precedes (c'.start finalizer) :=
  ⟨hc.1, hc.2.1.trans (List.suffix_cons _ _), hc.2.2⟩

theorem discard (hc : c.Precedes c') (finalizer : Option Nat) :
    c.Precedes (c'.discard finalizer) :=
  ⟨hc.1, hc.2.1, hc.2.2.trans (List.suffix_append _ _)⟩

end Chronicle.Precedes

@[simp] theorem Chronicle.making?_make (c : Chronicle) (slot : Nat) (m : Making) (s : Nat) :
    (c.make slot m).making? s = if s = slot then some m else c.making? s := by
  unfold making? make
  by_cases hs : s = slot
  · simp [hs]
  · have hne : (s == slot) = false := by simpa using hs
    simp [List.lookup_cons, hs, hne]

/-- Where the finalizers are that have been given to weak references. -/
structure Ledger (weak : SlotTable WeakEntry) (pending : List Finalizer) (c : Chronicle)
    (parting : List Nat) : Prop where
  /-- Every finalizer is in one place. -/
  places : (List.range c.given).Perm (weak.retained ++ parting ++ c.queued ++ c.discarded)
  /-- What is in a slot was put there by the reference made last in that slot. -/
  made : ∀ slot e, weak.get? slot = some e → ∃ m, c.making? slot = some m ∧
    ∀ key, e.key = some key → m.key = key ∧ m.finalizer = e.number?
  /-- The finalizer of an expired entry has been queued or is about to be. -/
  expired : ∀ slot e m i, weak.get? slot = some e → e.key = none → c.making? slot = some m →
    m.finalizer = some i → i ∈ parting ∨ i ∈ c.queued
  /-- Finalizers are started in the order in which they are queued. -/
  queue : c.queued = (pending.map Finalizer.number).reverse ++ c.started

namespace Ledger

variable {weak : SlotTable WeakEntry} {pending : List Finalizer} {c : Chronicle}
  {parting : List Nat}

theorem empty : Ledger .empty [] .empty [] where
  places := .refl _
  made := fun slot e he => by cases he
  expired := fun slot e m i he => by cases he
  queue := rfl

/-- Every finalizer is in one place. -/
theorem count_places (hl : Ledger weak pending c parting) (i : Nat) :
    (List.range c.given).count i = weak.retained.count i + parting.count i + c.queued.count i +
      c.discarded.count i := by
  rw [hl.places.count_eq, List.count_append, List.count_append, List.count_append]

/-- A new weak reference retains its finalizer, which is numbered next. -/
theorem insert (hl : Ledger weak pending c parting) (ht : weak.Sound) {e : WeakEntry} {m : Making}
    (hkey : e.key = some m.key) (hm : m.finalizer = e.number?)
    (hnumber : ∀ i, e.number? = some i → i = c.given) :
    Ledger (weak.insert e) pending (c.make weak.nextSlot m) parting where
  -- The new finalizer has the next number, so the numbers given out stay a permutation of those
  -- accounted for.
  places := by
    refine List.perm_iff_count.2 fun i => ?_
    have hplaces := hl.count_places i
    have hrange : (List.range (c.given + m.finalizer.toList.length)).count i =
        e.number?.toList.count i + (List.range c.given).count i := by
      rw [hm]
      cases hi : e.number? with
      | none => simp
      | some j =>
        obtain rfl := hnumber j hi
        rw [Option.toList_some, List.length_singleton, List.range_succ, List.count_append,
          Nat.add_comm]
    rw [List.count_append, List.count_append, List.count_append, ht.count_retained_insert]
    show (List.range (c.given + m.finalizer.toList.length)).count i =
      e.number?.toList.count i + weak.retained.count i + parting.count i + c.queued.count i +
        c.discarded.count i
    omega
  made := fun slot e' he' => by
    rw [ht.get?_insert] at he'
    rw [Chronicle.making?_make]
    split_ifs at he' ⊢ with hslot
    · cases he'
      refine ⟨m, rfl, fun key hk => ⟨?_, hm⟩⟩
      rw [hkey] at hk
      exact Option.some.inj hk
    · exact hl.made slot e' he'
  expired := fun slot e' m' i he' hnone hm' hi => by
    rw [ht.get?_insert] at he'
    rw [Chronicle.making?_make] at hm'
    split_ifs at he' hm' with hslot
    · cases he'
      rw [hkey] at hnone
      cases hnone
    · exact hl.expired slot e' m' i he' hnone hm' hi
  queue := hl.queue

/-- A weak reference that goes takes its finalizer with it if its key is alive. -/
theorem erase (hl : Ledger weak pending c parting) (slot : Nat) :
    Ledger (weak.erase slot) pending (c.discard ((weak.get? slot).bind WeakEntry.number?))
      parting := by
  have hold : ∀ s e, (weak.erase slot).get? s = some e → weak.get? s = some e := fun s e he => by
    rw [SlotTable.get?_erase] at he
    split_ifs at he
    exact he
  refine ⟨List.perm_iff_count.2 fun i => ?_, fun s e he => hl.made s e (hold s e he),
    fun s e m i he => hl.expired s e m i (hold s e he), hl.queue⟩
  have hplaces := hl.count_places i
  have herase := weak.count_retained_erase slot i
  rw [List.count_append, List.count_append, List.count_append]
  show (List.range c.given).count i = (weak.erase slot).retained.count i + parting.count i +
    c.queued.count i + (_ ++ c.discarded).count i
  rw [List.count_append]
  omega

/-- When entries expire, their finalizers are on their way to the queue. -/
theorem expire (hl : Ledger weak pending c parting) (p : Nat → WeakEntry → Bool) :
    Ledger (expire p weak) pending c
      ((Collector.expired p weak).filterMap Expired.number? ++ parting) where
  places := by
    refine List.perm_iff_count.2 fun i => ?_
    have hplaces := hl.count_places i
    have hexpire := count_retained_expire p weak i
    rw [List.count_append, List.count_append, List.count_append, List.count_append]
    omega
  made := fun slot e he => by
    rw [get?_expire, Option.map_eq_some_iff] at he
    obtain ⟨old, hold, rfl⟩ := he
    obtain ⟨m, hm, hkeyed⟩ := hl.made slot old hold
    refine ⟨m, hm, fun key hkey => ?_⟩
    split_ifs at hkey ⊢
    · cases hkey
    · exact hkeyed key hkey
  expired := fun slot e m i he hnone hm hi => by
    rw [get?_expire, Option.map_eq_some_iff] at he
    obtain ⟨old, hold, rfl⟩ := he
    cases hkey : old.key with
    | none => exact (hl.expired slot old m i hold hkey hm hi).imp_left (List.mem_append_right _)
    | some key =>
      -- An entry that had a key and has none now is one that has just expired.
      split_ifs at hnone with hp
      · obtain ⟨m', hm', hkeyed⟩ := hl.made slot old hold
        cases hm.symm.trans hm'
        have hnumber : old.number? = some i := (hkeyed key hkey).2.symm.trans hi
        refine .inl (List.mem_append_left _ (List.mem_filterMap.2
          ⟨⟨old.value, old.finalizer⟩, List.mem_map.2 ⟨(slot, old), ?_, rfl⟩, hnumber⟩))
        exact List.mem_filter.2 ⟨SlotTable.mem_entries.2 hold, hp⟩
      · rw [hkey] at hnone
        cases hnone
  queue := hl.queue

/-- What is left of an expired entry puts its finalizer on the queue. -/
theorem enqueue {finalizer : Option Finalizer} {history : History} {phase : Phase}
    (hl : Ledger weak pending c ((finalizer.map Finalizer.number).toList ++ parting)) :
    Ledger weak (pending ++ finalizer.toList)
      (c.queue (finalizer.map Finalizer.number) history phase) parting where
  places := by
    refine List.perm_iff_count.2 fun i => ?_
    have hplaces := hl.count_places i
    rw [List.count_append] at hplaces
    rw [List.count_append, List.count_append, List.count_append]
    show (List.range c.given).count i = weak.retained.count i + parting.count i +
      (_ ++ c.queued).count i + c.discarded.count i
    rw [List.count_append]
    omega
  made := hl.made
  expired := fun slot e m i he hnone hm hi => by
    show i ∈ parting ∨ i ∈ _ ++ c.queued
    have hold := hl.expired slot e m i he hnone hm hi
    rw [List.mem_append] at hold ⊢
    tauto
  queue := by
    show (finalizer.map Finalizer.number).toList ++ c.queued = _
    rw [hl.queue]
    cases finalizer with
    | none => simp [Chronicle.queue]
    | some f => simp [Chronicle.queue]

/-- Starting the finalizer at the head of the queue. -/
theorem start {f : Finalizer} {rest : List Finalizer}
    (hl : Ledger weak (f :: rest) c parting) : Ledger weak rest (c.start f.number) parting where
  places := hl.places
  made := hl.made
  expired := hl.expired
  queue := by
    show c.queued = _ ++ f.number :: c.started
    rw [hl.queue, List.map_cons, List.reverse_cons, List.append_assoc]
    rfl

end Ledger

/-! ## What weak entries tell of their keys -/

/-- The weak reference was made on a node that had its payload, while no full collection was
sweeping. -/
def Making.InTime (m : Making) : Prop := m.detached = false ∧ m.phase ≠ .sweeping

instance (m : Making) : Decidable m.InTime := inferInstanceAs (Decidable (_ ∧ _))

/-- A full collection that is sweeping has found other nodes reachable, but not this one, which is
about to lose its payload if it has not lost it yet. -/
def Forsaken (kept : Option (List (NodeId × Bool))) (n : NodeId) : Prop :=
  ∃ l, kept = some l ∧ ∀ x ∈ l, x.1 ≠ n

/-- Where no full collection is sweeping, no node is forsaken. -/
theorem not_forsaken_none (n : NodeId) : ¬Forsaken none n := fun hf => by
  obtain ⟨l, hl, -⟩ := hf
  cases hl

/-- What weak entries tell of their keys, given the stages of the nodes and which of them have lost
their payload, how the references in the slots were made, the nodes that are about to lose their
payload, and what a full collection that is sweeping has found reachable. -/
structure Current (stage : NodeId → Stage) (detached : NodeId → Bool)
    (weak : SlotTable WeakEntry) (making? : Nat → Option Making) (loose : List NodeId)
    (kept : Option (List (NodeId × Bool))) : Prop where
  /-- Weak references are made on nodes that have storage. -/
  born : ∀ slot e m, weak.get? slot = some e → making? slot = some m → stage m.key ≠ .unborn
  /-- An entry expires only if its key has lost its payload or is about to. -/
  hollow : ∀ slot e m, weak.get? slot = some e → e.key = none → making? slot = some m →
    stage m.key = .allocated → detached m.key = false → m.key ∈ loose ∨ Forsaken kept m.key
  /-- An entry made in time expires before its key loses its payload. -/
  keyed : ∀ slot e m key, weak.get? slot = some e → e.key = some key → making? slot = some m →
    m.InTime → detached key = false ∧ ¬Forsaken kept key

namespace Current

variable {stage stage' : NodeId → Stage} {detached detached' : NodeId → Bool}
  {weak : SlotTable WeakEntry} {making? : Nat → Option Making} {loose loose' : List NodeId}
  {kept kept' : Option (List (NodeId × Bool))}

theorem empty : Current stage detached .empty making? loose kept where
  born := fun slot e m he => by cases he
  hollow := fun slot e m he => by cases he
  keyed := fun slot e m key he => by cases he

/-- What becomes of nodes is in keeping with the weak entries if none that had been born is unborn
again, if no node is alive that was not, and if no node keyed by an entry made in time loses its
payload or is forsaken. -/
theorem mono (hc : Current stage detached weak making? loose kept)
    (hborn : ∀ n, stage n ≠ .unborn → stage' n ≠ .unborn)
    (hlive : ∀ n, stage n ≠ .unborn → stage' n = .allocated → detached' n = false →
      stage n = .allocated ∧ detached n = false ∧
        (n ∈ loose ∨ Forsaken kept n → n ∈ loose' ∨ Forsaken kept' n))
    (hkeyed : ∀ e ∈ weak.toList, ∀ n, e.key = some n → detached n = false ∧ ¬Forsaken kept n →
      detached' n = false ∧ ¬Forsaken kept' n) :
    Current stage' detached' weak making? loose' kept' where
  born := fun slot e m he hm => hborn _ (hc.born slot e m he hm)
  hollow := fun slot e m he hnone hm hs hd => by
    obtain ⟨hs', hd', himp⟩ := hlive _ (hc.born slot e m he hm) hs hd
    exact himp (hc.hollow slot e m he hnone hm hs' hd')
  keyed := fun slot e m key he hkey hm ht =>
    hkeyed e (SlotTable.mem_toList.2 ⟨slot, he⟩) key hkey (hc.keyed slot e m key he hkey hm ht)

/-- More nodes may be about to lose their payload. -/
theorem loosen (hc : Current stage detached weak making? loose kept)
    (hloose : ∀ n ∈ loose, n ∈ loose') : Current stage detached weak making? loose' kept :=
  hc.mono (fun _ hs => hs) (fun n _ hs hd => ⟨hs, hd, Or.imp_left (hloose n)⟩)
    fun _ _ _ _ hn => hn

/-- A new weak entry on a node that has storage. A full collection that is sweeping tells so. -/
theorem insert {c : Chronicle} (hc : Current stage detached weak c.making? loose kept)
    (ht : weak.Sound) {e : WeakEntry} {m : Making} (hkey : e.key = some m.key)
    (hstage : stage m.key = .allocated) (hdetached : m.detached = detached m.key)
    (hphase : kept ≠ none → m.phase = .sweeping) :
    Current stage detached (weak.insert e) (c.make weak.nextSlot m).making? loose kept where
  born := fun slot e' m' he' hm' => by
    rw [ht.get?_insert] at he'
    rw [Chronicle.making?_make] at hm'
    split_ifs at he' hm'
    · cases hm'
      rw [hstage]
      exact fun hs => by cases hs
    · exact hc.born slot e' m' he' hm'
  hollow := fun slot e' m' he' hnone hm' => by
    rw [ht.get?_insert] at he'
    rw [Chronicle.making?_make] at hm'
    split_ifs at he' hm'
    · cases he'
      rw [hkey] at hnone
      cases hnone
    · exact hc.hollow slot e' m' he' hnone hm'
  keyed := fun slot e' m' key he' hkey' hm' htime => by
    rw [ht.get?_insert] at he'
    rw [Chronicle.making?_make] at hm'
    split_ifs at he' hm'
    · cases he'
      cases hm'
      rw [hkey] at hkey'
      cases hkey'
      refine ⟨hdetached ▸ htime.1, fun hf => htime.2 (hphase fun hnone => ?_)⟩
      exact not_forsaken_none m.key (hnone ▸ hf)
    · exact hc.keyed slot e' m' key he' hkey' hm' htime

/-- An entry may go. -/
theorem erase (hc : Current stage detached weak making? loose kept) (slot : Nat) :
    Current stage detached (weak.erase slot) making? loose kept := by
  have hold : ∀ s e, (weak.erase slot).get? s = some e → weak.get? s = some e := fun s e he => by
    rw [SlotTable.get?_erase] at he
    split_ifs at he
    exact he
  exact ⟨fun s e m he => hc.born s e m (hold s e he), fun s e m he => hc.hollow s e m (hold s e he),
    fun s e m key he => hc.keyed s e m key (hold s e he)⟩

/-- Entries may expire whose keys, if alive, are about to lose their payload or forsaken from now
on, and a full collection may begin to sweep that has found the other keys reachable. -/
theorem expire {c : Chronicle} {pending : List Finalizer} {parting : List Nat}
    {p : Nat → WeakEntry → Bool} (hc : Current stage detached weak c.making? loose kept)
    (hl : Ledger weak pending c parting)
    (hdead : ∀ slot e key, weak.get? slot = some e → p slot e = true → e.key = some key →
      stage key = .allocated → detached key = false → key ∈ loose ∨ Forsaken kept' key)
    (hold : ∀ n, Forsaken kept n → Forsaken kept' n)
    (hspared : ∀ slot e key, weak.get? slot = some e → p slot e = false → e.key = some key →
      detached key = false → ¬Forsaken kept key → ¬Forsaken kept' key) :
    Current stage detached (Collector.expire p weak) c.making? loose kept' where
  born := fun slot e m he hm => by
    rw [get?_expire, Option.map_eq_some_iff] at he
    obtain ⟨old, hold, rfl⟩ := he
    exact hc.born slot old m hold hm
  hollow := fun slot e m he hnone hm hs hd => by
    rw [get?_expire, Option.map_eq_some_iff] at he
    obtain ⟨old, hget, rfl⟩ := he
    cases hkey : old.key with
    | none => exact (hc.hollow slot old m hget hkey hm hs hd).imp_right (hold _)
    | some key =>
      split_ifs at hnone with hp
      · obtain ⟨m', hm', hkeyed⟩ := hl.made slot old hget
        cases hm.symm.trans hm'
        obtain rfl := (hkeyed key hkey).1
        exact hdead slot old m.key hget hp hkey hs hd
      · rw [hkey] at hnone
        cases hnone
  keyed := fun slot e m key he hkey hm ht => by
    rw [get?_expire, Option.map_eq_some_iff] at he
    obtain ⟨old, hget, rfl⟩ := he
    split_ifs at hkey with hp
    · cases hkey
    · obtain ⟨hd, hf⟩ := hc.keyed slot old m key hget hkey hm ht
      exact ⟨hd, hspared slot old key hget (by simpa using hp) hkey hd hf⟩

end Current

/-! ## The accounts -/

/-- What the running totals of a collector add up to, when so many nodes have been freed, some of
them by a lite sweep that has not returned yet. -/
structure Accounts (freed : Nat) (stats : Stats) (sweeps : List Nat)
    (collections : List CollectionResult) (reclaimed : Nat) : Prop where
  freed : freed = stats.totalReclaimed + reclaimed
  reclaimed : stats.totalReclaimed = sweeps.sum
  marked : stats.totalMarked = (collections.map CollectionResult.marked).sum
  detached : stats.totalDetached = (collections.map CollectionResult.detached).sum

theorem Accounts.zero : Accounts 0 .zero [] [] 0 := ⟨rfl, rfl, rfl, rfl⟩

/-- What has been returned in all grows by the result of a full collection, which goes on record
unless it was asked for during another. -/
structure Chronicle.Gains (c : Chronicle) (r : CollectionResult) (c' : Chronicle) : Prop where
  reclaimed : c'.sweeps.sum = r.reclaimed + c.sweeps.sum
  marked : (c'.collections.map CollectionResult.marked).sum =
    r.marked + (c.collections.map CollectionResult.marked).sum
  detached : (c'.collections.map CollectionResult.detached).sum =
    r.detached + (c.collections.map CollectionResult.detached).sum
  collections : c'.collections = c.collections ∨ c'.collections = r :: c.collections

/-- A full collection asked for during another adds nothing. -/
theorem Chronicle.gains_zero (c : Chronicle) : c.Gains ⟨0, 0, 0⟩ c :=
  ⟨(Nat.zero_add _).symm, (Nat.zero_add _).symm, (Nat.zero_add _).symm, .inl rfl⟩

end HybridHeap
