import HybridHeap.Proofs.Safety

/-!
# How nodes read when the cycle is flipped

Flipping the cycle is meant to unmark every node. It unmarks what is on the live list, so that
marking starts afresh there. A node that a full collection has detached keeps the mark that it had,
and reads by turns as unmarked and as marked from then on, as long as edges keep its storage.
-/

namespace HybridHeap

variable {law : Law} {h : Heap}

/-- Where collections are not held off, a node that a flip of the cycle would make read as marked is
off the live list and has read as unmarked at the last flip. -/
theorem Heap.Turns.readsMarked_iff (hturns : h.Turns) {n : NodeId} (hn : h.isAllocated n = true) :
    h.flip.readsMarked n = true ↔
      n ∉ h.rings.toList liveList ∧ n ∈ Flip.lastUnmarked h.flips := by
  have hread : n ∈ h.flip.reading.marked ∨ n ∈ h.flip.reading.unmarked := by
    cases hmarked : h.flip.readsMarked n with
    | true => exact .inl (Heap.mem_marked.2 ⟨hn, hmarked⟩)
    | false => exact .inr (Heap.mem_unmarked.2 ⟨hn, hmarked⟩)
  have hmarked : n ∈ h.flip.reading.marked ↔ h.flip.readsMarked n = true :=
    Heap.mem_marked.trans (and_iff_right hn)
  exact hmarked.symm.trans (hturns.marked n hread)

namespace Mutator

open Collector Act

variable {k : Heap}

/-- How nodes read has followed at each flip from how they read at the one before. -/
theorem Visited.alternating (hk : Visited law k) : Flip.Alternating k.flips := by
  obtain ⟨w, hw, inv⟩ := hk.invariant
  exact (inv.flips hw.scarred).1

/-- A node that has had storage and stayed off the live list at the latest flips reads by turns as
marked and as unmarked, so that their number tells how it reads now. -/
theorem reads_by_turns (hk : Visited law k) {newer older : List Flip} {n : NodeId}
    (hflips : k.flips = newer ++ older) (hread : ∀ f ∈ newer, n ∈ f.marked ∨ n ∈ f.unmarked)
    (hout : ∀ f ∈ newer, n ∉ f.live) :
    n ∈ Flip.lastUnmarked k.flips ↔ (n ∈ Flip.lastUnmarked older ↔ Even newer.length) := by
  have halternating := hk.alternating
  rw [hflips] at halternating ⊢
  exact halternating.parity hread hout

/-- At every flip of the cycle that there has been, the nodes on the live list have read as
unmarked, and any other node with storage as marked if and only if it had read as unmarked at the
flip before. So it will be at a flip that comes now, unless collections are held off. -/
theorem flips_alternate (hk : Visited law k) :
    (∀ newer f older, k.flips = newer ++ f :: older → f.Follows (Flip.lastUnmarked older)) ∧
    (k.isInhibited = false → ∀ n, k.isAllocated n = true →
      (k.flip.readsMarked n = true ↔
        n ∉ k.rings.toList liveList ∧ n ∈ Flip.lastUnmarked k.flips)) := by
  refine ⟨fun newer f older hflips => ?_, fun hi n hn => ?_⟩
  · have halternating := hk.alternating
    rw [hflips] at halternating
    exact halternating.follows
  · obtain ⟨w, hw, inv⟩ := hk.invariant
    -- What holds off collections holds a guard, so none is under way.
    have hguard := guard_eq_none inv hi
    have hturns := inv.turns hw.scarred hguard
    exact hturns.readsMarked_iff hn

/-- A node is detached that an edge still counts, and is rooted again. At the next flip it reads as
marked: it was off the live list and had read as unmarked before. -/
theorem flips_alternate_detached :
    ∃ k f older, Visited .honest k ∧ k.flips = f :: older ∧ 0 ∈ f.marked ∧ 0 ∉ f.live ∧
      0 ∈ Flip.lastUnmarked older := by
  have hplay : ((play .honest [.allocate (.edge "a") .node [] none, .full, .rootFrom "b" "a",
      .full]).any fun k => k.flips.length = 2 ∧
        ∀ f ∈ k.flips.head?, 0 ∈ f.marked) = true := by
    decide +kernel
  obtain ⟨k, hk, hfacts⟩ := (Option.any_eq_true _ _).1 hplay
  obtain ⟨htwo, hmarked⟩ := of_decide_eq_true hfacts
  have hvisited : Visited .honest k := ⟨k, reached_of_play hk, .inl rfl⟩
  cases hflips : k.flips with
  | nil =>
    rw [hflips] at htwo
    cases htwo
  | cons f older =>
    -- How it reads is told by evaluation, and what follows from it by the theorem.
    have hf := (flips_alternate hvisited).1 [] f older hflips
    rw [hflips] at hmarked
    have hzero : 0 ∈ f.marked := hmarked f rfl
    obtain ⟨hout, hbefore⟩ := (hf.marked 0 (.inl hzero)).1 hzero
    exact ⟨k, f, older, hvisited, hflips, hzero, hout, hbefore⟩

/-- So a flip of the cycle does not unmark every node: where the next full collection would flip it,
a rooted node reads as marked, and marking passes it by. -/
theorem marked_at_flip :
    ∃ h a h', Reached .honest h ∧ h.isInhibited = false ∧ h.phase = .idle ∧
      h.isAllocated 0 = true ∧ 0 ∈ h.rootNodes ∧ h.flip.readsMarked 0 = true ∧
      answer (.under .honest) (runNested (.under .honest) 9 9) 9 .full h = .ok a h' ∧
      h'.flips.head?.any (fun f => 0 ∈ f.marked) = true ∧ h'.stats.lastMarked = 0 := by
  have hplay : ((play .honest [.allocate (.edge "a") .node [] none, .full,
      .rootFrom "b" "a"]).any fun h =>
        (h.isInhibited = false ∧ h.phase = .idle ∧ h.isAllocated 0 = true ∧ 0 ∈ h.rootNodes ∧
          h.flip.readsMarked 0 = true) ∧
        Returns (answer (.under .honest) (runNested (.under .honest) 9 9) 9 .full) h fun _ h' =>
          h'.flips.head?.any (fun f => 0 ∈ f.marked) = true ∧ h'.stats.lastMarked = 0) = true := by
    decide +kernel
  obtain ⟨h, hh, hfacts⟩ := (Option.any_eq_true _ _).1 hplay
  obtain ⟨⟨hinhibited, hphase, halloc, hroot, hreads⟩, hfull⟩ := of_decide_eq_true hfacts
  obtain ⟨a, h', hrun, hmarked, hnone⟩ := returns_iff.1 hfull
  exact ⟨h, a, h', reached_of_play hh, hinhibited, hphase, halloc, hroot, hreads, hrun, hmarked,
    hnone⟩

end Mutator

end HybridHeap
