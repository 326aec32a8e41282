import HybridHeap.Proofs.Marking

/-!
# The order in which nodes are marked

Marking looks at the nodes it comes to and at the keys of weak entries, and at nothing else. So on
two heaps that differ only in nodes it does not come to, where such nodes key weak entries in one of
them only if they do not look marked, it marks the same nodes in the same order: the heaps are
marked in step, one node at a time, and a pass over the weak table resolves the same entries in
both. Only the entries that stay unresolved differ, by those whose key is one of these nodes.
-/

namespace HybridHeap

open Collector

namespace Collector.Marking

variable {law law' : Law} {w v : Juncture} {h k : Heap} {n : NodeId}
variable {Q : NodeId → Prop} {G : Set NodeId} {ns ns' : List NodeId} {m m' : Marking}

open scoped Classical in
/-- The weak entries whose key is none of the nodes in the set. -/
noncomputable def keyedOutside (G : Set NodeId) (entries : List (Nat × NodeId × Option NodeId)) :
    List (Nat × NodeId × Option NodeId) :=
  entries.filter fun x => x.2.1 ∉ G

theorem keyedOutside_cons_of_mem {x : Nat × NodeId × Option NodeId} (hx : x.2.1 ∈ G)
    (entries : List (Nat × NodeId × Option NodeId)) :
    keyedOutside G (x :: entries) = keyedOutside G entries :=
  List.filter_cons_of_neg (by simp [hx])

theorem keyedOutside_cons_of_notMem {x : Nat × NodeId × Option NodeId} (hx : x.2.1 ∉ G)
    (entries : List (Nat × NodeId × Option NodeId)) :
    keyedOutside G (x :: entries) = x :: keyedOutside G entries :=
  List.filter_cons_of_pos (by simp [hx])

theorem mem_keyedOutside {x : Nat × NodeId × Option NodeId}
    {entries : List (Nat × NodeId × Option NodeId)} :
    x ∈ keyedOutside G entries ↔ x ∈ entries ∧ x.2.1 ∉ G := by
  unfold keyedOutside
  simp only [List.mem_filter, decide_eq_true_eq]

/-- When the entries keyed by the set have expired, the others are still keyed. -/
theorem keyed_expire {p : Nat → WeakEntry → Bool}
    (hp : ∀ slot e key, e.key = some key → (p slot e = true ↔ key ∈ G))
    (hweak : k.roots.weak = expire p h.roots.weak) : keyed k = keyedOutside G (keyed h) := by
  unfold keyed keyedOutside
  rw [hweak, entries_expire, List.filterMap_map, List.filter_filterMap]
  refine List.filterMap_congr fun x _ => ?_
  obtain ⟨slot, e⟩ := x
  cases hkey : e.key with
  | none => cases hpe : p slot e <;> simp [hpe, hkey, hollow]
  | some key =>
    have hiff := hp slot e key hkey
    by_cases hpe : p slot e = true
    · simp [hpe, hiff.1 hpe, hkey, hollow, Option.filter_some]
    · simp [hpe, mt hiff.2 hpe, hkey, Option.filter_some]

/-- Marking goes the same way in two heaps, of which the second may lack the weak entries keyed by
nodes of a set that marking does not come to. -/
structure Parallel (Q : NodeId → Prop) (G : Set NodeId) (h k : Heap) : Prop where
  left : Scope h Q
  right : Scope k Q
  apart : ∀ n, Q n → n ∉ G
  size : k.nodes.size = h.nodes.size
  traced : ∀ n, Q n → (traced k n).1 = (traced h n).1
  marked : ∀ n ∉ G, (start k).isMarked n = (start h).isMarked n
  roots : k.rootNodes = h.rootNodes
  keyed : keyed k = keyedOutside G (keyed h)
  unmarked : ∀ x ∈ Collector.Marking.keyed h, x.2.1 ∈ G → (start h).isMarked x.2.1 = false
  order : k.rings.toList reachableList = h.rings.toList reachableList

/-- The markings of two heaps are in step: besides nodes of the set the same are marked, in the same
order, and the same are left to be visited. -/
structure InStep (G : Set NodeId) (m m' : Marking) : Prop where
  stack : m'.stack = m.stack
  marked : ∀ n ∉ G, m'.isMarked n = m.isMarked n
  order : m'.heap.rings.toList reachableList = m.heap.rings.toList reachableList

/-- No key in the set is ever marked. -/
theorem Parallel.isMarked_key (hp : Parallel Q G h k) (he : Explores law w h Q ns m)
    {x : Nat × NodeId × Option NodeId} (hx : x.2.1 ∈ G)
    (hstart : (start h).isMarked x.2.1 = false) : m.isMarked x.2.1 = false := by
  rw [Bool.eq_false_iff]
  intro hmark
  rcases he.marked hmark with hfound | hold
  · exact hp.apart _ (he.sound _ hfound) hx
  · rw [hstart] at hold
    cases hold

/-! ## One step of each -/

/-- Visiting a node of the scope keeps markings in step. -/
theorem InStep.visit (hs : InStep G m m') (hp : Parallel Q G h k) (he : Explores law w h Q ns m)
    (he' : Explores law' v k Q ns' m') (hn : Q n) : InStep G (m.visit n) (m'.visit n) := by
  have hallocated := hp.left.allocated n hn
  have hallocated' := hp.right.allocated n hn
  have hsame : m'.isMarked n = m.isMarked n := hs.marked n (hp.apart n hn)
  have hmarked : ∀ j ∉ G, (m'.visit n).isMarked j = (m.visit n).isMarked j := by
    intro j hj
    rw [Bool.eq_iff_iff, isMarked_visit (by rw [he'.frame.isAllocated]; exact hallocated'),
      isMarked_visit (by rw [he.frame.isAllocated]; exact hallocated), hs.marked j hj]
  cases hmark : m.isMarked n with
  | true =>
    rw [visit_of_isMarked hmark, visit_of_isMarked (hsame.trans hmark)]
    exact hs
  | false =>
    have hmark' : m'.isMarked n = false := hsame.trans hmark
    constructor
    · rw [visit_of_not_isMarked hmark, visit_of_not_isMarked hmark']
      exact congrArg (n :: ·) hs.stack
    · exact hmarked
    · rw [he.toList_reachable_visit hallocated hmark, he'.toList_reachable_visit hallocated' hmark',
        hs.order]

/-- So does visiting several. -/
theorem InStep.foldl_visit (hs : InStep G m m') (hp : Parallel Q G h k)
    (he : Explores law w h Q ns m) (he' : Explores law' v k Q ns' m') {ks : List NodeId}
    (hks : ∀ j ∈ ks, Q j) :
    InStep G (ks.foldl Marking.visit m) (ks.foldl Marking.visit m') := by
  induction ks generalizing m m' with
  | nil => exact hs
  | cons j ks ih =>
    have hj := hks j List.mem_cons_self
    apply ih (hs.visit hp he he' hj)
    · exact (he.visit hj (hp.left.allocated j hj)).1
    · exact (he'.visit hj (hp.right.allocated j hj)).1
    · exact fun i hi => hks i (List.mem_cons_of_mem j hi)

/-- The same edges are traced of the node on top of the stacks, which is of the scope. -/
theorem InStep.step (hs : InStep G m m') (hp : Parallel Q G h k) (he : Explores law w h Q [] m)
    (he' : Explores law' v k Q [] m') {rest : List NodeId} (hstack : m.stack = n :: rest) :
    InStep G m.step m'.step := by
  have hstack' : m'.stack = n :: rest := hs.stack.trans hstack
  have hn : Q n := he.sound n (he.stacked n (by simp [hstack]))
  have hedges : (Collector.traced m'.heap n).1 = (Collector.traced m.heap n).1 := by
    rw [he.frame.traced, he'.frame.traced, hp.traced n hn]
  obtain ⟨events, hlog⟩ := exists_logTrace m.heap (Collector.traced m.heap n).2
  obtain ⟨events', hlog'⟩ := exists_logTrace m'.heap (Collector.traced m'.heap n).2
  rw [step_eq hstack, step_eq hstack', hedges]
  refine foldl_visit ?_ hp (he.pop hstack _) (he'.pop hstack' _) (he.traced_top hp.left hstack)
  rw [hlog, hlog']
  exact ⟨rfl, hs.marked, hs.order⟩

/-! ## Loops -/

theorem InStep.drain (hs : InStep G m m') (hp : Parallel Q G h k) (he : Explores law w h Q [] m)
    (he' : Explores law' v k Q [] m') (fuel : Nat) : InStep G (m.drain fuel) (m'.drain fuel) := by
  induction fuel generalizing m m' with
  | zero => exact hs
  | succ fuel ih =>
    unfold Marking.drain
    cases hstack : m.stack with
    | nil =>
      rw [hs.stack, hstack]
      exact hs
    | cons n rest =>
      rw [hs.stack, hstack]
      have hstack' : m'.stack = n :: rest := hs.stack.trans hstack
      exact ih (hs.step hp he he' hstack) (he.step hp.left hstack).1
        (he'.step hp.right hstack').1

/-- Marking from a node of the scope takes the same number of turns at most in both. -/
theorem InStep.reach (hs : InStep G m m') (hp : Parallel Q G h k) (he : Explored law w h Q m)
    (he' : Explored law' v k Q m') (hn : Q n) : InStep G (m.reach n) (m'.reach n) := by
  have hsize : m'.heap.nodes.size = m.heap.nodes.size := by
    rw [he'.frame.size_nodes, he.frame.size_nodes, hp.size]
  unfold Marking.reach
  rw [hsize]
  obtain ⟨hvisit, -, -⟩ := he.visit hn (hp.left.allocated n hn)
  obtain ⟨hvisit', -, -⟩ := he'.visit hn (hp.right.allocated n hn)
  exact (hs.visit hp he.toExplores he'.toExplores hn).drain hp hvisit hvisit' _

theorem InStep.foldl_reach (hs : InStep G m m') (hp : Parallel Q G h k) (he : Explored law w h Q m)
    (he' : Explored law' v k Q m') {ks : List NodeId} (hks : ∀ j ∈ ks, Q j) :
    InStep G (ks.foldl Marking.reach m) (ks.foldl Marking.reach m') := by
  induction ks generalizing m m' with
  | nil => exact hs
  | cons j ks ih =>
    have hj := hks j List.mem_cons_self
    apply ih (hs.reach hp he he' hj)
    · exact (he.reach hp.left hj).1
    · exact (he'.reach hp.right hj).1
    · exact fun i hi => hks i (List.mem_cons_of_mem j hi)

/-! ## The weak table -/

/-- A pass over weak entries none of whose keys is marked does nothing. -/
theorem weakPass_of_not_isMarked {entries : List (Nat × NodeId × Option NodeId)}
    (hkeys : ∀ x ∈ entries, m.isMarked x.2.1 = false) : m.weakPass entries = (m, entries) := by
  induction entries with
  | nil => rfl
  | cons x rest ih =>
    obtain ⟨slot, key, value⟩ := x
    have hkey : m.isMarked key = false := hkeys (slot, key, value) List.mem_cons_self
    unfold Marking.weakPass
    rw [hkey, ih fun y hy => hkeys y (List.mem_cons_of_mem _ hy)]
    rfl

/-- Weak entries whose values follow their keys in one heap do so in the other. -/
theorem Parallel.follows (hp : Parallel Q G h k) {entries : List (Nat × NodeId × Option NodeId)}
    (hentries : Follows h Q entries) : Follows k Q (keyedOutside G entries) := by
  intro x hx v hv hkey
  obtain ⟨hx, hout⟩ := mem_keyedOutside.1 hx
  rw [hp.marked _ hout] at hkey
  exact hentries x hx v hv hkey

/-- A pass over the weak entries of both heaps resolves the same entries. -/
theorem InStep.weakPass (hs : InStep G m m') (hp : Parallel Q G h k) (he : Explored law w h Q m)
    (he' : Explored law' v k Q m') {entries : List (Nat × NodeId × Option NodeId)}
    (hentries : Follows h Q entries)
    (hkeys : ∀ x ∈ entries, x.2.1 ∈ G → (start h).isMarked x.2.1 = false) :
    InStep G (m.weakPass entries).1 (m'.weakPass (keyedOutside G entries)).1 ∧
      (m'.weakPass (keyedOutside G entries)).2 = keyedOutside G (m.weakPass entries).2 := by
  induction entries generalizing m m' with
  | nil => exact ⟨hs, rfl⟩
  | cons x rest ih =>
    have hrest : Follows h Q rest := fun y hy => hentries y (List.mem_cons_of_mem _ hy)
    have hkeys' : ∀ y ∈ rest, y.2.1 ∈ G → (start h).isMarked y.2.1 = false := fun y hy =>
      hkeys y (List.mem_cons_of_mem _ hy)
    by_cases hx : x.2.1 ∈ G
    · -- The entry is there in the first heap only, and stays unresolved.
      have hkey := hp.isMarked_key he.toExplores hx (hkeys x List.mem_cons_self hx)
      obtain ⟨hstep, hleft⟩ := ih hs he he' hrest hkeys'
      have hpass : m.weakPass (x :: rest) = ((m.weakPass rest).1, x :: (m.weakPass rest).2) := by
        obtain ⟨slot, key, value⟩ := x
        rw [Marking.weakPass, hkey]
        rfl
      rw [hpass, keyedOutside_cons_of_mem hx, keyedOutside_cons_of_mem hx]
      exact ⟨hstep, hleft⟩
    · have hsame : m'.isMarked x.2.1 = m.isMarked x.2.1 := hs.marked _ hx
      rw [keyedOutside_cons_of_notMem hx]
      obtain ⟨slot, key, value⟩ := x
      unfold Marking.weakPass
      cases hkey : m.isMarked key with
      | false =>
        rw [hsame.trans hkey]
        obtain ⟨hstep, hleft⟩ := ih hs he he' hrest hkeys'
        refine ⟨hstep, ?_⟩
        rw [if_neg Bool.false_ne_true, if_neg Bool.false_ne_true, keyedOutside_cons_of_notMem hx]
        exact congrArg _ hleft
      | true =>
        rw [hsame.trans hkey, if_pos rfl, if_pos rfl]
        cases hv : value with
        | none => exact ih hs he he' hrest hkeys'
        | some v =>
          have hscope := (he.marked hkey).imp_left (he.sound key)
          have hQ : Q v := hentries _ List.mem_cons_self v hv hscope
          exact ih (hs.reach hp he he' hQ) (he.reach hp.left hQ).1 (he'.reach hp.right hQ).1 hrest
            hkeys'

/-- Going through the weak entries stops after the same pass in both heaps: a pass that resolves
none in the second does so in the first, where no further key is marked. -/
theorem InStep.weakClosure (hs : InStep G m m') (hp : Parallel Q G h k)
    (he : Explored law w h Q m) (he' : Explored law' v k Q m') {fuel fuel' : Nat}
    {entries : List (Nat × NodeId × Option NodeId)} (hentries : Follows h Q entries)
    (hkeys : ∀ x ∈ entries, x.2.1 ∈ G → (start h).isMarked x.2.1 = false)
    (hfuel : entries.length < fuel) (hfuel' : (keyedOutside G entries).length < fuel') :
    InStep G (m.weakClosure fuel entries).1
      (m'.weakClosure fuel' (keyedOutside G entries)).1 := by
  -- By induction on the fuel of the first closure. Both stop at the same pass, so that of the
  -- second suffices as well.
  induction fuel generalizing m m' fuel' entries with
  | zero => exact absurd hfuel (Nat.not_lt_zero _)
  | succ fuel ih =>
    cases fuel' with
    | zero => exact absurd hfuel' (Nat.not_lt_zero _)
    | succ fuel' =>
      have hclosure : m.weakClosure (fuel + 1) entries =
          if (m.weakPass entries).2.length = entries.length then m.weakPass entries
          else (m.weakPass entries).1.weakClosure fuel (m.weakPass entries).2 := rfl
      have hclosure' : m'.weakClosure (fuel' + 1) (keyedOutside G entries) =
          if (m'.weakPass (keyedOutside G entries)).2.length = (keyedOutside G entries).length then
            m'.weakPass (keyedOutside G entries)
          else (m'.weakPass (keyedOutside G entries)).1.weakClosure fuel'
            (m'.weakPass (keyedOutside G entries)).2 := rfl
      obtain ⟨hstep, hleft⟩ := hs.weakPass hp he he' hentries hkeys
      obtain ⟨he₁, -, hsub, -, -⟩ := he.weakPass hp.left hentries
      obtain ⟨he₁', -, hsub', -, hnone'⟩ := he'.weakPass hp.right (hp.follows hentries)
      have hle := hsub.length_le
      have hle' := hsub'.length_le
      by_cases hlen : (m.weakPass entries).2.length = entries.length
      · have hall : (m.weakPass entries).2 = entries := hsub.eq_of_length hlen
        have hlen' : (m'.weakPass (keyedOutside G entries)).2.length =
            (keyedOutside G entries).length := by rw [hleft, hall]
        rw [hclosure, hclosure', if_pos hlen, if_pos hlen']
        exact hstep
      · have hlen' : (m'.weakPass (keyedOutside G entries)).2.length ≠
            (keyedOutside G entries).length := fun hsame => by
          obtain ⟨-, hunmarked⟩ := hnone' hsame
          refine hlen (congrArg (fun c => c.2.length) (weakPass_of_not_isMarked fun x hx => ?_))
          by_cases hxG : x.2.1 ∈ G
          · exact hp.isMarked_key he.toExplores hxG (hkeys x hx hxG)
          · rw [← hs.marked _ hxG]
            exact hunmarked x (mem_keyedOutside.2 ⟨hx, hxG⟩)
        rw [hclosure, hclosure', if_neg hlen, if_neg hlen', hleft]
        rw [hleft] at hle' hlen'
        exact ih hstep he₁ he₁' (fun x hx => hentries x (hsub.subset hx))
          (fun x hx => hkeys x (hsub.subset hx)) (by omega) (by omega)

/-! ## A whole marking -/

/-- Two heaps in which marking goes the same way are marked in the same order. -/
theorem Parallel.run (hp : Parallel Q G h.flip k.flip)
    (inv : Invariant law { w with guard := some .full } h) (hkept : w.kept = none)
    (hempty : w.scarred = false → h.rings.toList reachableList = [])
    (hturns : w.scarred = false → h.Turns)
    (inv' : Invariant law' { v with guard := some .full } k) (hkept' : v.kept = none)
    (hempty' : v.scarred = false → k.rings.toList reachableList = [])
    (hturns' : v.scarred = false → k.Turns) :
    InStep G (run h).1 (run k).1 := by
  have hstart : InStep G (start h.flip) (start k.flip) := ⟨rfl, hp.marked, hp.order⟩
  have he := explored_start (Q := Q) inv hkept hempty hturns
  have he' := explored_start (Q := Q) inv' hkept' hempty' hturns'
  have hroots := hstart.foldl_reach hp he he' hp.left.roots
  obtain ⟨he₁, -, -⟩ := he.foldl_reach hp.left hp.left.roots
  obtain ⟨he₁', -, -⟩ := he'.foldl_reach hp.right hp.right.roots
  rw [hp.roots] at he₁'
  have hentries : Follows h.flip Q (Collector.Marking.keyed h.flip) := by
    rintro ⟨slot, key, value⟩ hx v hv hkey
    obtain ⟨e, hslot, hekey, hevalue⟩ := mem_keyed.1 hx
    exact hp.left.weak e (SlotTable.mem_toList.2 ⟨slot, hslot⟩) key v hekey (hevalue.trans hv) hkey
  have hclosure := hroots.weakClosure hp he₁ he₁' hentries hp.unmarked
    (Nat.lt_succ_self _) (Nat.lt_succ_self _)
  have hrun : ∀ h : Heap, (Marking.run h).1 = ((h.flip.rootNodes.foldl Marking.reach
      (start h.flip)).weakClosure ((Collector.Marking.keyed h.flip).length + 1)
        (Collector.Marking.keyed h.flip)).1 := fun _ => rfl
  rw [hrun, hrun, hp.roots, hp.keyed]
  exact hclosure

end Collector.Marking

end HybridHeap
