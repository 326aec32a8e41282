import HybridHeap.Proofs.References

/-!
# The flips of the cycle

A full collection begins by flipping the cycle, so that what was marked reads as unmarked. This
works for what is on the live list, where everything is marked by then. A node that is off the list
is not touched any more, unless it is found again, and so its mark stays as it is and reads
differently at every flip.
-/

namespace HybridHeap

namespace Flip

variable {f : Flip} {flips older : List Flip} {n : NodeId}

/-- The nodes that read as unmarked at the last flip. -/
def lastUnmarked : List Flip → List NodeId
  | [] => []
  | f :: _ => f.unmarked

/-- How nodes read at a flip follows from the nodes that read as unmarked at the one before: all of
these read as marked unless they are on the live list, and nothing else does. -/
structure Follows (before : List NodeId) (f : Flip) : Prop where
  apart : ∀ n ∈ f.marked, n ∉ f.unmarked
  live : ∀ n ∈ f.live, n ∈ f.unmarked
  marked : ∀ n, n ∈ f.marked ∨ n ∈ f.unmarked → (n ∈ f.marked ↔ n ∉ f.live ∧ n ∈ before)

/-- How nodes read follows at each flip from how they read at the one before. -/
def Alternating : List Flip → Prop
  | [] => True
  | f :: older => f.Follows (lastUnmarked older) ∧ Alternating older

/-- It does so at any flip among others. -/
theorem Alternating.follows {newer : List Flip} (h : Alternating (newer ++ f :: older)) :
    f.Follows (lastUnmarked older) := by
  induction newer with
  | nil => exact h.1
  | cons f' newer ih => exact ih h.2

/-- A node that stays off the live list reads by turns as marked and as unmarked. -/
theorem Alternating.parity {newer : List Flip} (h : Alternating (newer ++ older))
    (hread : ∀ f ∈ newer, n ∈ f.marked ∨ n ∈ f.unmarked) (hout : ∀ f ∈ newer, n ∉ f.live) :
    n ∈ lastUnmarked (newer ++ older) ↔ (n ∈ lastUnmarked older ↔ Even newer.length) := by
  induction newer with
  | nil => simp
  | cons f newer ih =>
    obtain ⟨hf, hrest⟩ := h
    have hbefore := ih hrest (fun f' hf' => hread f' (List.mem_cons_of_mem f hf'))
      fun f' hf' => hout f' (List.mem_cons_of_mem f hf')
    have hread := hread f List.mem_cons_self
    have hout := hout f List.mem_cons_self
    -- The flip has made of what it read as before the opposite.
    have hflipped : n ∈ f.unmarked ↔ n ∉ lastUnmarked (newer ++ older) := by
      have hmarked := hf.marked n hread
      constructor
      · exact fun hn hlast => hf.apart n (hmarked.2 ⟨hout, hlast⟩) hn
      · exact fun hlast => hread.resolve_left fun hn => hlast (hmarked.1 hn).2
    show n ∈ f.unmarked ↔ _
    rw [hflipped, hbefore, List.length_cons, Nat.even_add_one]
    exact not_iff.trans (not_iff_comm.trans iff_comm)

end Flip

namespace Heap

variable {h : Heap} {n : NodeId}

/-- The nodes that read as unmarked are those with storage that do. -/
theorem mem_unmarked :
    n ∈ h.reading.unmarked ↔ h.isAllocated n = true ∧ h.readsMarked n = false := by
  unfold reading
  simp only [List.mem_filter, List.mem_range, Bool.not_eq_true']
  exact and_congr_left fun _ => ⟨And.right, fun hn => ⟨lt_size_of_isAllocated hn, hn⟩⟩

theorem mem_marked : n ∈ h.reading.marked ↔ h.isAllocated n = true ∧ h.readsMarked n = true := by
  unfold reading
  simp only [List.mem_filter, List.mem_range]
  exact and_congr_left fun _ => ⟨And.right, fun hn => ⟨lt_size_of_isAllocated hn, hn⟩⟩

/-- A flip of the cycle inverts how every node reads. -/
theorem readsMarked_flip (h : Heap) (n : NodeId) : h.flip.readsMarked n = !h.readsMarked n := by
  show ((h.status n).contains .mark == !h.cycle) = !((h.status n).contains .mark == h.cycle)
  cases (h.status n).contains .mark <;> cases h.cycle <;> rfl

/-- Once the cycle is flipped, how nodes read will follow from how they read at the last flip. -/
def Turns (h : Heap) : Prop := h.flip.reading.Follows (Flip.lastUnmarked h.flips)

/-- This is so if the nodes on the live list read as marked, and the others as they did at the last
flip. -/
theorem turns_of_lagging (hlisted : ∀ n ∈ h.rings.toList liveList, h.isAllocated n = true)
    (hlive : ∀ n ∈ h.rings.toList liveList, h.readsMarked n = true)
    (hothers : ∀ n, h.isAllocated n = true → n ∉ h.rings.toList liveList →
      (h.readsMarked n = false ↔ n ∈ Flip.lastUnmarked h.flips)) : h.Turns where
  apart n hn hn' := by
    have htrue := (mem_marked.1 hn).2
    rw [(mem_unmarked.1 hn').2] at htrue
    cases htrue
  live n hn := by
    refine mem_unmarked.2 ⟨hlisted n hn, ?_⟩
    rw [readsMarked_flip, hlive n hn]
    rfl
  marked n hn := by
    have halloc : h.isAllocated n = true := hn.elim
      (fun hn => (mem_marked.1 hn).1) fun hn => (mem_unmarked.1 hn).1
    have hmarked : n ∈ h.flip.reading.marked ↔ h.readsMarked n = false := by
      rw [mem_marked, readsMarked_flip, Bool.not_eq_true']
      exact and_iff_right halloc
    rw [hmarked]
    constructor
    · intro hn
      -- On the live list it would have read as marked before.
      have hout : n ∉ h.rings.toList liveList := fun hmem => by
        rw [hlive n hmem] at hn
        cases hn
      exact ⟨hout, (hothers n halloc hout).1 hn⟩
    · rintro ⟨hout, hn⟩
      exact (hothers n halloc hout).2 hn

end Heap

end HybridHeap
