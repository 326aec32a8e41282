import Mathlib.Algebra.Order.BigOperators.Group.Finset
import Mathlib.Algebra.Order.BigOperators.Group.List
import Mathlib.Algebra.Order.Ring.Nat

/-!
# Sums over arrays

What is counted over the nodes of a heap, or over the blocks of a store, is a sum over an array of
which operations change one element or to which they add one.
-/

namespace HybridHeap

variable {α β : Type}

/-- What is counted over an array changes by what is counted of the element that changes. -/
theorem sum_modify {xs : Array α} {i : Nat} {x : α} (hx : xs[i]? = some x) (f : α → α)
    (g : α → Nat) :
    ((xs.modify i f).toList.map g).sum + g x = (xs.toList.map g).sum + g (f x) := by
  obtain ⟨hlt, hnode⟩ := Array.getElem?_eq_some_iff.1 hx
  obtain ⟨l₁, l₂, hl, -, hset⟩ := @List.exists_of_set _ i (f x) xs.toList hlt
  rw [Array.getElem_toList, hnode] at hl
  have hmodify : (xs.modify i f).toList = l₁ ++ f x :: l₂ := by
    rw [Array.toList_modify, List.modify_eq_set_getElem?, Array.getElem?_toList, hx]
    exact hset
  rw [hmodify, hl]
  simp only [List.map_append, List.map_cons, List.sum_append, List.sum_cons]
  omega

/-- What is counted over an array does not change if it does not for the element that changes. -/
theorem sum_modify_of_eq (xs : Array α) (i : Nat) {f : α → α} {g : α → Nat}
    (hfg : ∀ x, g (f x) = g x) : ((xs.modify i f).toList.map g).sum = (xs.toList.map g).sum := by
  cases hx : xs[i]? with
  | none =>
    have hge : xs.size ≤ i := by simpa using hx
    rw [Array.toList_modify, List.modify_eq_self (by simpa using hge)]
  | some x =>
    have hsum := sum_modify hx f g
    rw [hfg] at hsum
    omega

/-- A further element adds what is counted of it. -/
theorem sum_push (xs : Array α) (x : α) (g : α → Nat) :
    ((xs.push x).toList.map g).sum = (xs.toList.map g).sum + g x := by
  simp

/-- What is counted of one element is part of what is counted over the array. -/
theorem le_sum {xs : Array α} {i : Nat} {x : α} (hx : xs[i]? = some x) (g : α → Nat) :
    g x ≤ (xs.toList.map g).sum := by
  rw [← Array.getElem?_toList] at hx
  exact List.single_le_sum (fun _ _ => Nat.zero_le _) _
    (List.mem_map_of_mem (List.mem_of_getElem? hx))

/-- What is counted over an array, place by place. -/
theorem sum_eq_sum_range (xs : Array α) (g : α → Nat) :
    (xs.toList.map g).sum = ∑ i ∈ Finset.range xs.size, (xs[i]?.map g).getD 0 := by
  have hlist : xs.toList.map g = (List.range xs.size).map fun i => (xs[i]?.map g).getD 0 := by
    refine List.ext_getElem (by simp) fun i hi _ => ?_
    have hlt : i < xs.size := by simpa using hi
    simp [hlt]
  rw [hlist]
  rfl

/-- What is counted over one array is at most what is counted over another, if everything that
counts in the first has a place of its own in the second where at least as much is counted. -/
theorem sum_le_sum_of_place {xs : Array α} {ys : Array β} {g : α → Nat} {k : β → Nat}
    (place : Nat → Nat)
    (hle : ∀ i x, xs[i]? = some x → g x ≠ 0 → ∃ y, ys[place i]? = some y ∧ g x ≤ k y)
    (hinj : ∀ i j x y, xs[i]? = some x → xs[j]? = some y → g x ≠ 0 → g y ≠ 0 →
      place i = place j → i = j) :
    (xs.toList.map g).sum ≤ (ys.toList.map k).sum := by
  let count := fun i : Nat => (xs[i]?.map g).getD 0
  let countings := (Finset.range xs.size).filter fun i => count i ≠ 0
  -- Only places where something is counted matter; the rest contribute nothing.
  have hcounts : ∀ i ∈ countings, ∃ x, xs[i]? = some x ∧ g x ≠ 0 ∧ count i = g x := by
    intro i hi
    have hne : count i ≠ 0 := (Finset.mem_filter.1 hi).2
    cases hx : xs[i]? with
    | none => exact absurd (by simp [count, hx]) hne
    | some x =>
      have hcount : count i = g x := by simp [count, hx]
      exact ⟨x, rfl, hcount ▸ hne, hcount⟩
  have hinjOn : Set.InjOn place countings := by
    intro i hi j hj hij
    obtain ⟨x, hx, hgx, -⟩ := hcounts i hi
    obtain ⟨y, hy, hgy, -⟩ := hcounts j hj
    exact hinj i j x y hx hy hgx hgy hij
  calc (xs.toList.map g).sum
      = ∑ i ∈ countings, count i := by
        rw [sum_eq_sum_range]
        exact (Finset.sum_filter_ne_zero _).symm
    _ ≤ ∑ i ∈ countings, (ys[place i]?.map k).getD 0 := by
        refine Finset.sum_le_sum fun i hi => ?_
        obtain ⟨x, hx, hgx, hcount⟩ := hcounts i hi
        obtain ⟨y, hy, hxy⟩ := hle i x hx hgx
        rw [hcount, hy]
        exact hxy
    _ = ∑ j ∈ countings.image place, (ys[j]?.map k).getD 0 :=
        (Finset.sum_image (f := fun j => (ys[j]?.map k).getD 0) hinjOn).symm
    _ ≤ ∑ j ∈ Finset.range ys.size, (ys[j]?.map k).getD 0 := by
        refine Finset.sum_le_sum_of_subset fun j hj => ?_
        obtain ⟨i, hi, rfl⟩ := Finset.mem_image.1 hj
        obtain ⟨x, hx, hgx, -⟩ := hcounts i hi
        obtain ⟨y, hy, -⟩ := hle i x hx hgx
        exact Finset.mem_range.2 (Array.getElem?_eq_some_iff.1 hy).1
    _ = (ys.toList.map k).sum := (sum_eq_sum_range ys k).symm

end HybridHeap
