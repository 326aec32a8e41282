import HybridHeap.Proofs.Leaving
import HybridHeap.Proofs.Lifetimes

/-!
# Handles and their slots

An explicit root and a weak reference are known to the collector by the slot that they have in a
table. Slots are used again, the one vacated last first, so it has to be shown that no two handles
that are alive ever have the same one. `Heap.SlotsExact` says that two tables are those of the given
handles and nothing else, `Interleaved.slotsExact` that this is so after any interleaving of making,
expiring and dropping handles, and `Invariant.slotsExact` that it is so of the handles that a
mutator really has.
-/

namespace HybridHeap

open Act

variable {h : Heap} {roots : List (Nat × NodeId)} {weaks : List (Nat × WeakEntry)}

/-- The slot tables are those of the given explicit roots and weak references. -/
structure Heap.SlotsExact (h : Heap) (roots : List (Nat × NodeId))
    (weaks : List (Nat × WeakEntry)) : Prop where
  /-- No two roots have the same slot, and the node of each is in its slot. -/
  roots_apart : (roots.map Prod.fst).Nodup
  own_node : ∀ x ∈ roots, h.roots.explicit.get? x.1 = some x.2
  /-- No two weak references have the same slot, and the entry of each is in its slot. -/
  weaks_apart : (weaks.map Prod.fst).Nodup
  own_entry : ∀ x ∈ weaks, h.roots.weak.get? x.1 = some x.2
  /-- The free lists enumerate the empty slots without repetition, -/
  nodup_free : h.roots.explicit.free.Nodup ∧ h.roots.weak.free.Nodup
  mem_free : (∀ slot, slot ∈ h.roots.explicit.free ↔ h.roots.explicit.slots[slot]? = some none) ∧
    ∀ slot, slot ∈ h.roots.weak.free ↔ h.roots.weak.slots[slot]? = some none
  /-- and a slot is empty where no handle has it. -/
  occupied : (∀ slot, (h.roots.explicit.get? slot).isSome ↔ slot ∈ roots.map Prod.fst) ∧
    ∀ slot, (h.roots.weak.get? slot).isSome ↔ slot ∈ weaks.map Prod.fst
  /-- The number of roots is on record. -/
  size : h.roots.explicit.size = roots.length
  /-- The explicit roots that a collection visits are their nodes, once for each root. -/
  visited : h.roots.explicit.toList.Perm (roots.map Prod.snd)

/-- Tables that the handles own are exact. -/
theorem Heap.slotsExact_of_ownedBy (hroots : h.roots.explicit.OwnedBy roots)
    (hweaks : h.roots.weak.OwnedBy weaks) : h.SlotsExact roots weaks where
  roots_apart := hroots.distinct
  own_node := hroots.own
  weaks_apart := hweaks.distinct
  own_entry := hweaks.own
  nodup_free := ⟨hroots.nodup, hweaks.nodup⟩
  mem_free := ⟨hroots.mem_free, hweaks.mem_free⟩
  occupied := ⟨fun slot => (hroots.mem_slots slot).symm, fun slot => (hweaks.mem_slots slot).symm⟩
  size := hroots.size_eq_length
  visited := hroots.toList_perm

namespace Mutator

open Collector

/-! ## What each operation does to the tables -/

/-- A new root has the next slot, unless its node cannot be counted, which leaves the tables as they
are. -/
theorem newRoot_slots (n : NodeId) (h : Heap) : Leads (newRoot n) h
    (fun slot h' => slot = h.roots.explicit.nextSlot ∧
      h'.roots = { h.roots with explicit := h.roots.explicit.insert n })
    fun _ h' => h'.roots = h.roots := by
  unfold newRoot
  simp only [leads_bind, leads_view, leads_update, leads_pure]
  -- Counting leaves the tables, so the next slot is still the same.
  refine ((leaves_increment uncounted_roots n).leads h).imp fun _ k hk => ?_
  rw [← hk]
  exact ⟨rfl, rfl⟩

/-- A root that is dropped vacates its slot, whether or not its node can be counted down. -/
theorem dropRoot_slots (n : NodeId) (slot : Nat) (h : Heap) :
    (after (dropRoot n slot h)).roots =
      { h.roots with explicit := h.roots.explicit.erase slot } := by
  refine Leads.after (P := fun h' => h'.roots = _) ?_
  unfold dropRoot
  simp only [leads_bind, leads_update]
  exact (leaves_decrement uncounted_roots n).leads _

/-- The entry of a weak reference that is made in a heap. -/
def entryOf (h : Heap) (key : NodeId) (value : Option NodeId)
    (finalizer : Option (HandleName × Program)) : WeakEntry :=
  { key := some key, value
    finalizer := finalizer.map fun (name, program) =>
      { number := h.chronicle.given, name, program } }

/-- A new weak reference has the next slot. -/
theorem insertWeak_slots (key : NodeId) (value : Option NodeId)
    (finalizer : Option (HandleName × Program)) (h : Heap) :
    Returns (insertWeak key value finalizer) h fun slot h' =>
      slot = h.roots.weak.nextSlot ∧
      h'.roots = { h.roots with weak := h.roots.weak.insert (entryOf h key value finalizer) } := by
  unfold insertWeak
  simp only [Returns, leads_bind, leads_view, leads_update, leads_pure]
  exact ⟨rfl, rfl⟩

/-- Entries that expire keep their slots, even if a value cannot be released. -/
theorem expireEntries_slots (p : Nat → WeakEntry → Bool) (h : Heap) :
    (after (expireEntries p h)).roots = { h.roots with weak := expire p h.roots.weak } := by
  refine Leads.after (P := fun h' => h'.roots = _) ?_
  unfold expireEntries
  simp only [leads_bind, leads_view, leads_update]
  exact (leaves_settle uncounted_roots (fun _ _ => rfl) (fun _ _ => rfl) _).leads _

/-- A weak reference that is dropped vacates its slot, even if its value cannot be released. -/
theorem dropWeak_slots (slot : Nat) (h : Heap) :
    (after (dropWeak slot h)).roots = { h.roots with weak := h.roots.weak.erase slot } := by
  refine Leads.after (P := fun h' => h'.roots = _) ?_
  unfold dropWeak
  simp only [leads_bind, leads_view, leads_update]
  exact (leaves_releaseAll uncounted_roots _).leads _

/-! ## Interleavings -/

/-- The handles that are alive after any interleaving of making and dropping explicit roots, and
making, expiring and dropping weak references, with whatever else is done in between. A root is
copied by taking another one on its node. An entry that expires stays that of its weak reference. -/
inductive Interleaved : List (Nat × NodeId) → List (Nat × WeakEntry) → Heap → Prop where
  | start {h : Heap} (hexplicit : h.roots.explicit = .empty) (hweak : h.roots.weak = .empty) :
    Interleaved [] [] h
  | takeRoot {roots : List (Nat × NodeId)} {weaks : List (Nat × WeakEntry)} {h h' : Heap}
    {n : NodeId} {slot : Nat} (hi : Interleaved roots weaks h)
    (hcall : newRoot n h = .ok slot h') : Interleaved ((slot, n) :: roots) weaks h'
  | failRoot {roots : List (Nat × NodeId)} {weaks : List (Nat × WeakEntry)} {h h' : Heap}
    {n : NodeId} {e : Failure} (hi : Interleaved roots weaks h)
    (hcall : newRoot n h = .error e h') : Interleaved roots weaks h'
  | dropRoot {roots rest : List (Nat × NodeId)} {weaks : List (Nat × WeakEntry)} {h : Heap}
    {n : NodeId} {slot : Nat} (hi : Interleaved roots weaks h)
    (hlive : roots.Perm ((slot, n) :: rest)) :
    Interleaved rest weaks (after (dropRoot n slot h))
  | takeWeak {roots : List (Nat × NodeId)} {weaks : List (Nat × WeakEntry)} {h h' : Heap}
    {key : NodeId} {value : Option NodeId} {finalizer : Option (HandleName × Program)} {slot : Nat}
    (hi : Interleaved roots weaks h) (hcall : insertWeak key value finalizer h = .ok slot h') :
    Interleaved roots ((slot, entryOf h key value finalizer) :: weaks) h'
  | expire {roots : List (Nat × NodeId)} {weaks : List (Nat × WeakEntry)} {h : Heap}
    (hi : Interleaved roots weaks h) (p : Nat → WeakEntry → Bool) :
    Interleaved roots (weaks.map (expireOwner p)) (after (expireEntries p h))
  | dropWeak {roots : List (Nat × NodeId)} {weaks others : List (Nat × WeakEntry)} {h : Heap}
    {e : WeakEntry} {slot : Nat} (hi : Interleaved roots weaks h)
    (hlive : weaks.Perm ((slot, e) :: others)) :
    Interleaved roots others (after (dropWeak slot h))
  | meanwhile {roots : List (Nat × NodeId)} {weaks : List (Nat × WeakEntry)} {h h' : Heap}
    (hi : Interleaved roots weaks h) (hexplicit : h'.roots.explicit = h.roots.explicit)
    (hweak : h'.roots.weak = h.roots.weak) : Interleaved roots weaks h'

/-- The handles that are alive own the tables, each its slot. -/
theorem Interleaved.ownedBy (hi : Interleaved roots weaks h) :
    h.roots.explicit.OwnedBy roots ∧ h.roots.weak.OwnedBy weaks := by
  induction hi with
  | start hexplicit hweak =>
    rw [hexplicit, hweak]
    exact ⟨.empty, .empty⟩
  | @takeRoot _ _ h _ n _ _ hcall ih =>
    obtain ⟨rfl, hroots⟩ := (newRoot_slots n h).of_ok hcall
    rw [hroots]
    exact ⟨ih.1.insert n, ih.2⟩
  | @failRoot _ _ h _ n _ _ hcall ih =>
    rw [(newRoot_slots n h).of_error hcall]
    exact ih
  | dropRoot _ hlive ih =>
    -- Whichever root goes may stand first, since owners may be given in any order.
    rw [dropRoot_slots]
    exact ⟨(ih.1.perm hlive.symm).erase, ih.2⟩
  | @takeWeak _ _ h _ key value finalizer _ _ hcall ih =>
    obtain ⟨rfl, hroots⟩ := (insertWeak_slots key value finalizer h).of_ok hcall
    rw [hroots]
    exact ⟨ih.1, ih.2.insert _⟩
  | expire _ p ih =>
    rw [expireEntries_slots]
    exact ⟨ih.1, ownedBy_expire ih.2 p⟩
  | dropWeak _ hlive ih =>
    rw [dropWeak_slots]
    exact ⟨ih.1, (ih.2.perm hlive.symm).erase⟩
  | meanwhile _ hexplicit hweak ih =>
    rw [hexplicit, hweak]
    exact ih

/-- The tables are those of the handles that are alive. -/
theorem Interleaved.slotsExact (hi : Interleaved roots weaks h) : h.SlotsExact roots weaks :=
  Heap.slotsExact_of_ownedBy hi.ownedBy.1 hi.ownedBy.2

end Mutator

/-! ## The handles of a mutator -/

/-- What a mutator holds, lost handles included. -/
def Heap.liveHandles (h : Heap) : List Handle := h.handles.map Prod.snd ++ h.lostHandles

/-- The tables are those of what the mutator holds and of what operations under way have in hand. -/
theorem Invariant.slotsExact {law : Law} {w : Juncture} (inv : Invariant law w h) :
    ∃ weaks, (weaks.map Prod.fst).Perm (w.referring ++ h.liveHandles.filterMap Handle.weakSlot?) ∧
      h.SlotsExact ((w.rooted ++ h.liveHandles.filterMap Handle.root?).map Prod.swap) weaks := by
  have hlive : ∀ {α : Type} (f : Handle → Option α) (inHand : List α),
      (inHand ++ h.handles.filterMap fun x => f x.2) ++ h.lostHandles.filterMap f =
        inHand ++ h.liveHandles.filterMap f := by
    intro α f inHand
    unfold Heap.liveHandles
    rw [List.filterMap_append, List.filterMap_map, List.append_assoc]
    rfl
  -- The invariant lists what is in hand, under names and lost one after the other.
  have hexplicit := inv.explicit
  have hweak := inv.weak
  unfold Heap.liveRoots Heap.rootTokens at hexplicit
  unfold Heap.liveWeaks Heap.weakTokens at hweak
  rw [hlive] at hexplicit hweak
  obtain ⟨weaks, hslots, howned⟩ := hweak.exists_owners
  exact ⟨weaks, hslots, Heap.slotsExact_of_ownedBy hexplicit howned⟩

namespace Mutator

open Collector

/-- Slots are never mixed up. After any interleaving of making, copying, expiring and dropping
handles, the tables are exactly those of the handles that are alive. They are those of the handles
that a mutator really has, between its steps even if it goes on after fatal errors, with the holds
that it has open, and at the steps of destructors and finalizers, with what the operations under way
have in hand. -/
theorem slots_owned :
    (∀ roots weaks h, Interleaved roots weaks h → h.SlotsExact roots weaks) ∧
    (∀ cuts held h, Ran cuts held h → ∃ weaks,
      (weaks.map Prod.fst).Perm (h.liveHandles.filterMap Handle.weakSlot?) ∧
      h.SlotsExact ((held ++ h.liveHandles.filterMap Handle.root?).map Prod.swap) weaks) ∧
    ∀ h, Visited .honest h → ∃ rooted referring weaks,
      (weaks.map Prod.fst).Perm (referring ++ h.liveHandles.filterMap Handle.weakSlot?) ∧
      h.SlotsExact ((rooted ++ h.liveHandles.filterMap Handle.root?).map Prod.swap) weaks := by
  refine ⟨fun _ _ _ hi => hi.slotsExact, fun cuts held h hr => ?_, fun h hv => ?_⟩
  · have inv : Invariant .honest (.resumed true held) h := hr.invariant fun _ _ => rfl
    exact inv.slotsExact
  · obtain ⟨w, -, inv⟩ := hv.invariant
    exact ⟨w.rooted, w.referring, inv.slotsExact⟩

/-- A root is copied and dropped, and another one takes its slot; the entry of a weak reference
expires. A mutator loses the copy of a root that it has dropped, and its slot stays occupied. -/
theorem slots_owned_reused :
    (∃ h, Interleaved [(0, 0), (1, 0)] [(0, hollow)] h ∧
      h.SlotsExact [(0, 0), (1, 0)] [(0, hollow)]) ∧
    (∃ h weaks, Ran (fun _ => false) [] h ∧ h.SlotsExact [(1, 0)] weaks ∧
      h.roots.explicit.free = [0]) ∧
    ∃ h rooted weaks, Visited .honest h ∧ h.SlotsExact (rooted ++ [(1, 0)]) weaks := by
  obtain ⟨hinterleaved, hran, hvisited⟩ := slots_owned
  refine ⟨?_, ?_, ?_⟩
  · have hplay : ((play .honest [.allocate .bare .link [] none]).any fun h =>
        h.roots.explicit = .empty ∧ h.roots.weak = .empty ∧
        Returns (newRoot 0) h fun slot h => slot = 0 ∧ Returns (newRoot 0) h fun slot h =>
          slot = 1 ∧ Returns (newRoot 0) (after (dropRoot 0 0 h)) fun slot h => slot = 0 ∧
            Returns (insertWeak 0 none none) h fun slot _ => slot = 0) = true := by
      decide +kernel
    obtain ⟨h, -, hfacts⟩ := (Option.any_eq_true _ _).1 hplay
    obtain ⟨hexplicit, hweak, hrun⟩ := of_decide_eq_true hfacts
    obtain ⟨_, h₁, hfirst, rfl, hrun⟩ := returns_iff.1 hrun
    obtain ⟨_, h₂, hcopy, rfl, hrun⟩ := returns_iff.1 hrun
    obtain ⟨_, h₃, hthird, rfl, hrun⟩ := returns_iff.1 hrun
    obtain ⟨_, h₄, hreference, rfl⟩ := returns_iff.1 hrun
    have hdropped : Interleaved [(1, 0)] [] (after (dropRoot 0 0 h₂)) :=
      (((Interleaved.start hexplicit hweak).takeRoot hfirst).takeRoot hcopy).dropRoot
        (List.Perm.swap (0, 0) (1, 0) [])
    have hlive : Interleaved [(0, 0), (1, 0)] [(0, hollow)]
        (after (expireEntries (fun _ _ => true) h₄)) :=
      ((hdropped.takeRoot hthird).takeWeak hreference).expire fun _ _ => true
    exact ⟨_, hlive, hinterleaved _ _ _ hlive⟩
  · have hresume : ((resume (fun _ => false) [.allocate (.root "a") .link [] none,
        .clone "b" "a", .drop "a", .forget "b"]).any fun h =>
          h.liveHandles.filterMap Handle.root? = [(0, 1)] ∧
            h.roots.explicit.free = [0]) = true := by
      decide +kernel
    obtain ⟨h, hh, hfacts⟩ := (Option.any_eq_true _ _).1 hresume
    obtain ⟨hlive, hfree⟩ := of_decide_eq_true hfacts
    have hr := ran_of_resume hh
    obtain ⟨weaks, -, hexact⟩ := hran _ _ _ hr
    rw [hlive] at hexact
    exact ⟨h, weaks, hr, hexact, hfree⟩
  · have hplay : ((play .honest [.allocate (.root "a") .link [] none, .clone "b" "a",
        .drop "a", .forget "b"]).any fun h =>
          h.liveHandles.filterMap Handle.root? = [(0, 1)]) = true := by
      decide +kernel
    obtain ⟨h, hh, hlive⟩ := (Option.any_eq_true _ _).1 hplay
    have hv : Visited .honest h := ⟨h, reached_of_play hh, .inl rfl⟩
    obtain ⟨rooted, referring, weaks, -, hexact⟩ := hvisited h hv
    rw [of_decide_eq_true hlive, List.map_append] at hexact
    exact ⟨h, _, weaks, hv, hexact⟩

end Mutator

end HybridHeap
