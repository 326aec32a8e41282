import HybridHeap.Proofs.FinalizerPlaces

/-!
# The order in which finalizers run

Finalizers run in the order in which they have been queued. A lite sweep queues the finalizers of a
node and then drops its payload, so finalizers that lite sweeps have queued run in the order in
which their keys died, and so do those of different collections. A full collection queues all of its
finalizers slot by slot while it marks, and drops payloads only afterwards, in the order in which
the nodes were put on the live list. Which of its keys dies first has no part in the order of their
finalizers.

What a finalizer needs besides is to be queued before its key dies. That is so if the weak reference
was made in time: on a node that had its payload, while no full collection was sweeping.
-/

namespace HybridHeap

open Collector Act Mutator

variable {law : Law} {w : Juncture} {k : Heap}

/-- The finalizers queued so far, in the order in which they have been started or will be. -/
def Heap.runOrder (h : Heap) : List Nat := h.chronicle.started.reverse ++ h.queue

/-- Finalizers are started as they are queued. -/
theorem Invariant.runOrder_eq (inv : Invariant law w k) (hw : w.Intact) :
    k.runOrder = k.chronicle.queued.reverse := by
  rw [(inv.ledger hw).queue, List.reverse_append, List.reverse_reverse]
  rfl

/-- Of two finalizers the one that was queued first runs first. -/
theorem Invariant.runs_first (inv : Invariant law w k) (hw : w.Intact) {i j : Nat}
    (hqueued : [j, i].Sublist k.chronicle.queued) : [i, j].Sublist k.runOrder := by
  rw [inv.runOrder_eq hw]
  exact hqueued.reverse

namespace Mutator

/-- Of two finalizers with different keys that have been queued, the one whose key died first runs
first, if it was queued before its key died and not one full collection has queued both. Those that
one full collection has queued before their keys died run in the order of their slots. A finalizer
that was given in time is queued before its key dies. A request for the pending finalizers that
returns has started those that were queued in this order. -/
theorem finalizers_in_order (hv : Visited .honest k) {x y : Queueing}
    (hx : x ∈ k.chronicle.queueings) (hy : y ∈ k.chronicle.queueings) {slot slot' : Nat}
    {m m' : Making} (hm : Given k.chronicle.makings x.finalizer slot m)
    (hm' : Given k.chronicle.makings y.finalizer slot' m') (hne : m.key ≠ m'.key) :
    (m.InTime → ¬Lost x.history m.key) ∧
    (¬Lost x.history m.key → ¬Together x y → DiedBefore k.history m.key m'.key →
      [x.finalizer, y.finalizer].Sublist k.runOrder) ∧
    (¬Lost x.history m.key → ¬Lost y.history m'.key → Together x y → slot < slot' →
      [x.finalizer, y.finalizer].Sublist k.runOrder) ∧
    ∀ fuel depth k', Drains (runNested (.under .honest) fuel depth) fuel k k' →
      k.runOrder <+: k'.chronicle.started.reverse := by
  obtain ⟨w, hwhole, hpast, inv⟩ := hv.remembering
  have hdeaths := inv.deaths hwhole.intact
  rw [hwhole.parting] at hdeaths
  refine ⟨hdeaths.not_lost hx hm, fun halive hapart hdied => ?_,
    fun _ halive' htogether hslot => ?_, fun fuel depth k' hd => ?_⟩
  · apply inv.runs_first hwhole.intact
    exact hdeaths.queued_in_order hx hy hm hm' hne halive hapart hdied
  · apply inv.runs_first hwhole.intact
    exact hdeaths.queued_by_slot hx hy hm hm' hne halive' htogether hslot
  · have hkeeps := runNested_keeps (Terms.keep_of_whole hwhole .honest) fuel depth
    have inv' := hd.invariant hkeeps hwhole.toReady inv
    -- Nothing is pending any more, and what had been queued before has stayed as it was.
    have hstarted : k'.runOrder = k'.chronicle.started.reverse := by
      unfold Heap.runOrder Heap.queue
      rw [hd.pending_eq_nil, List.map_nil, List.append_nil]
    have hqueued := inv'.past.1
    rw [hpast] at hqueued
    rw [← hstarted, inv.runOrder_eq hwhole.intact, inv'.runOrder_eq hwhole.intact]
    exact List.reverse_prefix.2 hqueued

/-- The finalizer of a node that a lite sweep has reclaimed runs before those of two nodes that a
full collection has missed. Of these the one in the lower slot runs first, whose key died last. -/
theorem finalizers_in_order_mixed :
    ∃ k, Visited .honest k ∧ ∃ x ∈ k.chronicle.queueings, ∃ y ∈ k.chronicle.queueings,
      ∃ z ∈ k.chronicle.queueings,
        Given k.chronicle.makings x.finalizer 0 ⟨0, false, .idle, some 0⟩ ∧
        Given k.chronicle.makings y.finalizer 1 ⟨2, false, .idle, some 1⟩ ∧
        Given k.chronicle.makings z.finalizer 2 ⟨1, false, .idle, some 2⟩ ∧
        ¬Together x z ∧ DiedBefore k.history 0 1 ∧
        [x.finalizer, z.finalizer].Sublist k.runOrder ∧
        Together y z ∧ DiedBefore k.history 1 2 ∧
        [y.finalizer, z.finalizer].Sublist k.runOrder := by
  have hplay : ((play .honest [.allocate (.root "a") .node [] none, .allocate .bare .node [] none,
      .allocate .bare .node [] none, .weak "u" 0 none (some []), .weak "v" 2 none (some []),
      .weak "w" 1 none (some []), .drop "a", .lite, .full]).any fun k =>
        ∃ x ∈ k.chronicle.queueings, ∃ y ∈ k.chronicle.queueings, ∃ z ∈ k.chronicle.queueings,
          Given k.chronicle.makings x.finalizer 0 ⟨0, false, .idle, some 0⟩ ∧
          Given k.chronicle.makings y.finalizer 1 ⟨2, false, .idle, some 1⟩ ∧
          Given k.chronicle.makings z.finalizer 2 ⟨1, false, .idle, some 2⟩ ∧
          x.phase ≠ .marking ∧ y.phase = .marking ∧ z.phase = .marking ∧ y.history = z.history ∧
          DiedBefore k.history 0 1 ∧ DiedBefore k.history 1 2) = true := by
    decide +kernel
  obtain ⟨k, hk, hfacts⟩ := (Option.any_eq_true _ _).1 hplay
  obtain ⟨x, hx, y, hy, z, hz, hmx, hmy, hmz, hidle, hmarking, hmarking', hsame, hfirst, hsecond⟩ :=
    of_decide_eq_true hfacts
  have hv : Visited .honest k := ⟨k, reached_of_play hk, .inl rfl⟩
  have hapart : ¬Together x z := fun htogether => hidle htogether.left
  have htogether : Together y z := ⟨hmarking, hmarking', fun n => by rw [hsame]⟩
  obtain ⟨hlostx, horder, -, -⟩ := finalizers_in_order hv hx hz hmx hmz (by decide)
  obtain ⟨hlosty, -, hslots, -⟩ := finalizers_in_order hv hy hz hmy hmz (by decide)
  obtain ⟨hlostz, -, -, -⟩ := finalizers_in_order hv hz hx hmz hmx (by decide)
  exact ⟨k, hv, x, hx, y, hy, z, hz, hmx, hmy, hmz, hapart, hfirst,
    horder (hlostx (by decide)) hapart hfirst, htogether, hsecond,
    hslots (hlosty (by decide)) (hlostz (by decide)) htogether (by decide)⟩

/-- A full collection that misses two nodes drops the payload of one first and starts the finalizer
of the other first. -/
theorem finalizers_by_slot :
    ∃ k, Visited .honest k ∧ k.chronicle.queued = [1, 0] ∧
      Given k.chronicle.makings 0 0 ⟨1, false, .idle, some 0⟩ ∧
      Given k.chronicle.makings 1 1 ⟨0, false, .idle, some 1⟩ ∧
      DiedBefore k.history 0 1 ∧ ¬[1, 0].Sublist k.chronicle.started.reverse ∧
      [0, 1].Sublist k.chronicle.started.reverse := by
  have hplay : ((play .honest [.allocate .bare .node [] none, .allocate .bare .node [] none,
      .weak "v" 1 none (some []), .weak "w" 0 none (some []), .full]).any fun k =>
        k.chronicle.queued = [1, 0] ∧ Given k.chronicle.makings 0 0 ⟨1, false, .idle, some 0⟩ ∧
        Given k.chronicle.makings 1 1 ⟨0, false, .idle, some 1⟩ ∧ DiedBefore k.history 0 1 ∧
        ¬[1, 0].Sublist k.chronicle.started.reverse ∧
        [0, 1].Sublist k.chronicle.started.reverse) = true := by
    decide +kernel
  obtain ⟨k, hk, hfacts⟩ := (Option.any_eq_true _ _).1 hplay
  exact ⟨k, ⟨k, reached_of_play hk, .inl rfl⟩, of_decide_eq_true hfacts⟩

end Mutator

end HybridHeap
