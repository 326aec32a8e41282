import HybridHeap.Proofs.Sweeping

/-!
# When weak references expire

A weak reference expires when its key is found out of reach by a full collection or is reclaimed by
a lite sweep, and not before. What has found a key out of reach goes on to drop its payload, so
between the steps of the mutator the key of an entry is there as long as the node is attached. The
converse holds of weak references that were made in time: on a node that had its payload, while no
full collection was sweeping. No collection looks for a node that has lost its payload already, nor
for one that marking has passed over, before the next full collection.
-/

namespace HybridHeap

open Collector Act Mutator

variable {law : Law} {w : Juncture} {h k : Heap} {slot : Nat} {e : WeakEntry} {m : Making}

/-- Where no sweep is under way the key of an entry stays as long as it is attached. -/
theorem Invariant.weakKey_of_attached (inv : Invariant law w h) (hw : w.Intact) (hidle : w.Idle)
    (he : h.roots.weak.get? slot = some e) (hm : h.chronicle.making? slot = some m)
    (hattached : h.Attached m.key) : e.key = some m.key := by
  cases hkey : e.key with
  | none =>
    -- Its key would be about to be dropped by a sweep.
    have hdead := (inv.current hw).hollow slot e m he hkey hm
      (Heap.isAllocated_iff.1 hattached.1) hattached.2
    rw [hidle.loose, hidle.kept] at hdead
    exact (hdead.elim List.not_mem_nil (not_forsaken_none _)).elim
  | some key =>
    obtain ⟨m', hm', hkeyed⟩ := (inv.ledger hw).made slot e he
    cases hm.symm.trans hm'
    rw [(hkeyed key hkey).1]

/-- The key of an entry that was made in time is attached. -/
theorem Invariant.attached_of_weakKey (inv : Invariant law w h) (hw : w.Intact)
    (he : h.roots.weak.get? slot = some e) (hm : h.chronicle.making? slot = some m)
    (htime : m.InTime) (hkey : e.key = some m.key) : h.Attached m.key := by
  have halloc := (inv.weakKeys e (SlotTable.mem_toList.2 ⟨slot, he⟩) m.key hkey).1
  exact ⟨halloc, ((inv.current hw).keyed slot e m m.key he hkey hm htime).1⟩

/-- A weak reference that is held has its entry. -/
theorem Invariant.isSome_of_held (inv : Invariant law w h) {x : HandleName × Handle}
    (hx : x ∈ h.handles) (hslot : x.2 = .weak slot) : (h.roots.weak.get? slot).isSome := by
  refine inv.weakTokens slot (List.mem_append_right _ (List.mem_filterMap.2 ⟨x, hx, ?_⟩))
  rw [hslot]
  rfl

namespace Mutator

/-- Between the steps of the mutator every weak reference that it holds has its entry. The key of an
entry is there as long as the node is attached that the reference was made on, and it is no other
node and never one whose storage has gone back. If the reference was made in time, the key is there
only as long as the node is attached. -/
theorem weakKey_iff_attached (hv : Visited .honest k) (hdying : k.dying = []) :
    (∀ x ∈ k.handles, ∀ slot, x.2 = .weak slot → (k.roots.weak.get? slot).isSome) ∧
    ∀ slot, (k.roots.weak.get? slot).isSome → ∃ m, k.chronicle.making? slot = some m ∧
      (k.Attached m.key → weakKey? slot k = some m.key) ∧
      (∀ n, weakKey? slot k = some n → n = m.key ∧ k.isAllocated n = true) ∧
      (m.InTime → (weakKey? slot k = some m.key ↔ k.Attached m.key)) := by
  obtain ⟨w, hwhole, inv⟩ := hv.invariant
  have hidle := hwhole.toReady.idle_of_dying (inv.dying.symm.trans hdying)
  refine ⟨fun x hx slot => inv.isSome_of_held hx, fun slot hslot => ?_⟩
  obtain ⟨e, he⟩ := Option.isSome_iff_exists.1 hslot
  have hview : weakKey? slot k = e.key := by
    unfold weakKey?
    rw [he, Option.bind_some]
  obtain ⟨m, hm, hkeyed⟩ := (inv.ledger hwhole.intact).made slot e he
  have hstays := inv.weakKey_of_attached hwhole.intact hidle he hm
  rw [hview]
  refine ⟨m, hm, hstays, fun n hn => ⟨(hkeyed n hn).1.symm, ?_⟩, fun htime =>
    ⟨inv.attached_of_weakKey hwhole.intact he hm htime, hstays⟩⟩
  exact (inv.weakKeys e (SlotTable.mem_toList.2 ⟨slot, he⟩) n hn).1

/-- After a full collection a weak reference on a node that it has kept is there, and one on a node
that it has detached has expired. -/
theorem weakKey_iff_attached_full :
    ∃ k, Visited .honest k ∧ k.dying = [] ∧ weakKey? 0 k = some 0 ∧ weakKey? 1 k = none ∧
      ∀ slot < 2, ∃ m, k.chronicle.making? slot = some m ∧ m.InTime ∧
        (weakKey? slot k = some m.key ↔ k.Attached m.key) := by
  have hplay : ((play .honest [.allocate (.root "a") .node [] none,
      .allocate (.edge "b") .node [] none, .weak "v" 0 none none, .weak "w" 1 none none,
      .full]).any fun k => k.dying = [] ∧ weakKey? 0 k = some 0 ∧ weakKey? 1 k = none ∧
        ∀ slot < 2, (k.roots.weak.get? slot).isSome ∧
          (k.chronicle.making? slot).any (·.InTime) = true) = true := by
    decide +kernel
  obtain ⟨k, hk, hfacts⟩ := (Option.any_eq_true _ _).1 hplay
  obtain ⟨hdying, hstays, hexpired, hslots⟩ := of_decide_eq_true hfacts
  have hv : Visited .honest k := ⟨k, reached_of_play hk, .inl rfl⟩
  refine ⟨k, hv, hdying, hstays, hexpired, fun slot hslot => ?_⟩
  obtain ⟨hthere, hmade⟩ := hslots slot hslot
  obtain ⟨m, hm, -, -, hkey⟩ := (weakKey_iff_attached hv hdying).2 slot hthere
  rw [hm] at hmade
  have htime : m.InTime := of_decide_eq_true hmade
  exact ⟨m, hm, htime, hkey htime⟩

/-- A weak reference made on a node that a full collection has detached does not expire, and an edge
to the node is taken from it. -/
theorem detached_key_handed_out :
    ∃ h, Reached .honest h ∧ (h.handles.lookup "w").bind Handle.weakSlot? = some 0 ∧
      weakKey? 0 h = some 0 ∧ ¬h.Attached 0 ∧
      Returns (weakEdge weakKey? "w" .node (some "d")) h fun n h' =>
        n = some 0 ∧ ¬h'.Attached 0 := by
  have hplay : ((play .honest [.allocate (.edge "e") .node [] none, .full,
      .weak "w" 0 none none]).any fun h =>
        (h.handles.lookup "w").bind Handle.weakSlot? = some 0 ∧ weakKey? 0 h = some 0 ∧
        ¬h.Attached 0 ∧ Returns (weakEdge weakKey? "w" .node (some "d")) h fun n h' =>
          n = some 0 ∧ ¬h'.Attached 0) = true := by
    decide +kernel
  obtain ⟨h, hh, hfacts⟩ := (Option.any_eq_true _ _).1 hplay
  exact ⟨h, reached_of_play hh, of_decide_eq_true hfacts⟩

end Mutator

end HybridHeap
