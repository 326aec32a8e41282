import HybridHeap.Rings
import Mathlib.Data.List.Nodup
import Mathlib.Data.List.Perm.Subperm
import Mathlib.Tactic.SplitIfs

/-!
# Rings that hold lists

What it means that the links of a table hold given lists of nodes: following `next` from the
sentinel of a list visits its nodes in order and comes back, `prev` undoes `next` everywhere, no
node is on two lists, and a node on no list points at itself. Such a table is sound when the lists
it holds are the ones that `toList` walks. Each operation rewrites `next` at a few links, and its
lemma follows a path past those links by induction on the nodes of the path.
-/

namespace HybridHeap

namespace Rings

variable {r : Rings} {x y z : Link} {l : ListId} {n : NodeId}

/-! ## Ends -/

/-- Whether a link is in the table. -/
def Contains (r : Rings) : Link → Prop
  | .sentinel l => l < r.sentinels.size
  | .node n => n < r.nodes.size

instance : Decidable (r.Contains x) :=
  match x with
  | .sentinel l => Nat.decLt l r.sentinels.size
  | .node n => Nat.decLt n r.nodes.size

/-- A link that is not in the table points at itself. -/
theorem ends_of_not_contains (hx : ¬ r.Contains x) : r.ends x = ⟨x, x⟩ := by
  cases x <;> simp only [Contains, Nat.not_lt] at hx <;> simp [ends, hx]

/-- Changing the ends of a link changes them if the link is in the table, and no others. -/
theorem ends_modifyEnds (r : Rings) (x z : Link) (f : Ends → Ends) :
    (r.modifyEnds x f).ends z = if z = x ∧ r.Contains x then f (r.ends x) else r.ends z := by
  cases x with
  | sentinel l =>
    cases z with
    | sentinel k =>
      by_cases hk : k = l
      · subst hk
        by_cases hlt : k < r.sentinels.size
        · simp [modifyEnds, ends, Contains, hlt, Array.getElem_modify]
        · simp [modifyEnds, ends, Contains, hlt]
      · simp [modifyEnds, ends, hk, Ne.symm hk, Array.getElem?_modify]
    | node k => simp [modifyEnds, ends]
  | node n =>
    cases z with
    | sentinel k => simp [modifyEnds, ends]
    | node k =>
      by_cases hk : k = n
      · subst hk
        by_cases hlt : k < r.nodes.size
        · simp [modifyEnds, ends, Contains, hlt, Array.getElem_modify]
        · simp [modifyEnds, ends, Contains, hlt]
      · simp [modifyEnds, ends, hk, Ne.symm hk, Array.getElem?_modify]

@[simp] theorem contains_modifyEnds (r : Rings) (x z : Link) (f : Ends → Ends) :
    (r.modifyEnds x f).Contains z ↔ r.Contains z := by
  cases x <;> cases z <;> simp [modifyEnds, Contains]

@[simp] theorem size_nodes_modifyEnds (r : Rings) (x : Link) (f : Ends → Ends) :
    (r.modifyEnds x f).nodes.size = r.nodes.size := by
  cases x <;> simp [modifyEnds]

@[simp] theorem size_sentinels_modifyEnds (r : Rings) (x : Link) (f : Ends → Ends) :
    (r.modifyEnds x f).sentinels.size = r.sentinels.size := by
  cases x <;> simp [modifyEnds]

theorem next_setNext (r : Rings) (x y z : Link) :
    (r.setNext x y).next z = if z = x ∧ r.Contains x then y else r.next z := by
  unfold setNext next
  rw [ends_modifyEnds]
  split_ifs <;> rfl

theorem prev_setPrev (r : Rings) (x y z : Link) :
    (r.setPrev x y).prev z = if z = x ∧ r.Contains x then y else r.prev z := by
  unfold setPrev prev
  rw [ends_modifyEnds]
  split_ifs <;> rfl

@[simp] theorem prev_setNext (r : Rings) (x y z : Link) : (r.setNext x y).prev z = r.prev z := by
  unfold setNext prev
  rw [ends_modifyEnds]
  split_ifs with h
  · rw [h.1]
  · rfl

@[simp] theorem next_setPrev (r : Rings) (x y z : Link) : (r.setPrev x y).next z = r.next z := by
  unfold setPrev next
  rw [ends_modifyEnds]
  split_ifs with h
  · rw [h.1]
  · rfl

theorem next_isolate (r : Rings) (x z : Link) :
    (r.isolate x).next z = if z = x then x else r.next z := by
  unfold isolate next
  rw [ends_modifyEnds]
  by_cases hz : z = x
  · subst hz
    by_cases hc : r.Contains z
    · simp [hc]
    · simp [hc, ends_of_not_contains hc]
  · simp [hz]

theorem prev_isolate (r : Rings) (x z : Link) :
    (r.isolate x).prev z = if z = x then x else r.prev z := by
  unfold isolate prev
  rw [ends_modifyEnds]
  by_cases hz : z = x
  · subst hz
    by_cases hc : r.Contains z
    · simp [hc]
    · simp [hc, ends_of_not_contains hc]
  · simp [hz]

/-! ## Linked tables -/

/-- Every link is between its neighbours. -/
structure Linked (r : Rings) : Prop where
  prev_next : ∀ x, r.prev (r.next x) = x
  next_prev : ∀ x, r.next (r.prev x) = x

/-- In a linked table, what follows a link tells the link. -/
theorem Linked.next_eq_iff (hr : r.Linked) : r.next z = x ↔ z = r.prev x := by
  constructor
  · rintro rfl
    exact (hr.prev_next z).symm
  · rintro rfl
    exact hr.next_prev x

/-- In a linked table, what precedes a link tells the link. -/
theorem Linked.prev_eq_iff (hr : r.Linked) : r.prev z = x ↔ z = r.next x := by
  constructor
  · rintro rfl
    exact (hr.next_prev z).symm
  · rintro rfl
    exact hr.prev_next x

/-- The link after one that is in the table is in the table. -/
theorem Linked.contains_next (hr : r.Linked) (hx : r.Contains x) : r.Contains (r.next x) := by
  by_contra hc
  have hprev : r.prev (r.next x) = r.next x := by
    unfold prev
    rw [ends_of_not_contains hc]
  rw [hr.prev_next] at hprev
  rw [← hprev] at hc
  exact hc hx

/-- The link before one that is in the table is in the table. -/
theorem Linked.contains_prev (hr : r.Linked) (hx : r.Contains x) : r.Contains (r.prev x) := by
  by_contra hc
  have hnext : r.next (r.prev x) = r.prev x := by
    unfold next
    rw [ends_of_not_contains hc]
  rw [hr.next_prev] at hnext
  rw [← hnext] at hc
  exact hc hx

/-! ## What the operations do to the links -/

/-- After unlinking `x`, what led to `x` leads to what followed it. -/
theorem Linked.next_unlink (hr : r.Linked) (x z : Link) :
    (r.unlink x).next z = if z = x then x else if r.next z = x then r.next x else r.next z := by
  unfold unlink
  dsimp only
  rw [next_isolate, next_setPrev, next_setNext]
  by_cases hz : z = x
  · simp [hz]
  · rw [if_neg hz, if_neg hz]
    by_cases hx : r.next z = x
    · rw [if_pos hx]
      by_cases hc : r.Contains (r.prev x)
      · rw [if_pos ⟨hr.next_eq_iff.1 hx, hc⟩]
      · exfalso
        rw [hr.next_eq_iff] at hx
        rw [← hx] at hc
        have hself : r.next z = z := by
          unfold next
          rw [ends_of_not_contains hc]
        exact hz (by rw [← hself, hr.next_eq_iff, hx])
    · rw [if_neg hx, if_neg fun hc => hx (hr.next_eq_iff.2 hc.1)]

/-- After unlinking `x`, what came back to `x` comes back to what preceded it. -/
theorem Linked.prev_unlink (hr : r.Linked) (x z : Link) :
    (r.unlink x).prev z = if z = x then x else if r.prev z = x then r.prev x else r.prev z := by
  unfold unlink
  dsimp only
  rw [prev_isolate, prev_setPrev, prev_setNext]
  simp only [setNext, contains_modifyEnds]
  by_cases hz : z = x
  · simp [hz]
  · rw [if_neg hz, if_neg hz]
    by_cases hx : r.prev z = x
    · rw [if_pos hx]
      by_cases hc : r.Contains (r.next x)
      · rw [if_pos ⟨hr.prev_eq_iff.1 hx, hc⟩]
      · exfalso
        rw [hr.prev_eq_iff] at hx
        rw [← hx] at hc
        have hself : r.prev z = z := by
          unfold prev
          rw [ends_of_not_contains hc]
        exact hz (by rw [← hself, hr.prev_eq_iff, hx])
    · rw [if_neg hx, if_neg fun hc => hx (hr.prev_eq_iff.2 hc.1)]

/-- Unlinking keeps a table linked. -/
theorem Linked.unlink (hr : r.Linked) (x : Link) : (r.unlink x).Linked where
  prev_next := by
    intro z
    have hpn := hr.prev_next
    have hnp := hr.next_prev
    rw [hr.prev_unlink, hr.next_unlink]
    grind
  next_prev := by
    intro z
    have hpn := hr.prev_next
    have hnp := hr.next_prev
    rw [hr.next_unlink, hr.prev_unlink]
    grind

/-- Inserting an isolated link before an anchor leads what led to the anchor to the link, and the
link to the anchor. -/
theorem Linked.next_insertBefore (hr : r.Linked) {x anchor : Link} (hx : r.next x = x)
    (hc : r.Contains x) (ha : r.Contains anchor) (hne : x ≠ anchor) (z : Link) :
    (r.insertBefore x anchor).next z =
      if z = x then anchor else if r.next z = anchor then x else r.next z := by
  have hp : r.prev anchor ≠ x := by
    rw [ne_eq, hr.prev_eq_iff, hx]
    exact Ne.symm hne
  unfold insertBefore
  dsimp only
  rw [next_setPrev, next_setNext, next_setNext, next_setPrev]
  simp only [setNext, setPrev, contains_modifyEnds, hc, hr.contains_prev ha, and_true,
    hr.next_eq_iff]
  grind

/-- Inserting an isolated link before an anchor puts the link before the anchor, and what was before
the anchor before the link. -/
theorem prev_insertBefore {x anchor : Link} (hc : r.Contains x) (ha : r.Contains anchor)
    (z : Link) :
    (r.insertBefore x anchor).prev z =
      if z = anchor then x else if z = x then r.prev anchor else r.prev z := by
  unfold insertBefore
  dsimp only
  rw [prev_setPrev, prev_setNext, prev_setNext, prev_setPrev]
  simp only [setNext, setPrev, contains_modifyEnds, hc, ha, and_true]

/-- Inserting an isolated link keeps a table linked. -/
theorem Linked.insertBefore (hr : r.Linked) {x anchor : Link} (hx : r.next x = x)
    (hc : r.Contains x) (ha : r.Contains anchor) (hne : x ≠ anchor) :
    (r.insertBefore x anchor).Linked where
  prev_next := by
    intro z
    have hpn := hr.prev_next
    have hnp := hr.next_prev
    rw [prev_insertBefore hc ha, hr.next_insertBefore hx hc ha hne]
    grind
  next_prev := by
    intro z
    have hpn := hr.prev_next
    have hnp := hr.next_prev
    rw [prev_insertBefore hc ha, hr.next_insertBefore hx hc ha hne]
    grind

/-- The links of one ring after it was spliced to the back of another. -/
theorem Linked.next_spliceBack (hr : r.Linked) {l source : ListId} (hl : r.Contains (.sentinel l))
    (hs : r.Contains (.sentinel source)) (hfull : r.next (.sentinel source) ≠ .sentinel source)
    (z : Link) :
    (r.spliceBack l source).next z =
      if z = .sentinel source then .sentinel source
      else if r.next z = .sentinel source then .sentinel l
      else if r.next z = .sentinel l then r.next (.sentinel source)
      else r.next z := by
  unfold spliceBack
  rw [if_neg (by simpa [isEmpty] using hfull)]
  dsimp only
  rw [next_isolate, next_setPrev, next_setNext, next_setPrev, next_setNext]
  simp only [setNext, setPrev, contains_modifyEnds, hr.contains_prev hs, hr.contains_prev hl,
    and_true, hr.next_eq_iff]

/-- The links back after a ring was spliced to the back of another. -/
theorem Linked.prev_spliceBack (hr : r.Linked) {l source : ListId} (hl : r.Contains (.sentinel l))
    (hs : r.Contains (.sentinel source)) (hfull : r.next (.sentinel source) ≠ .sentinel source)
    (z : Link) :
    (r.spliceBack l source).prev z =
      if z = .sentinel source then .sentinel source
      else if z = .sentinel l then r.prev (.sentinel source)
      else if r.prev z = .sentinel source then r.prev (.sentinel l)
      else r.prev z := by
  unfold spliceBack
  rw [if_neg (by simpa [isEmpty] using hfull)]
  dsimp only
  rw [prev_isolate, prev_setPrev, prev_setNext, prev_setPrev, prev_setNext]
  simp only [setNext, setPrev, contains_modifyEnds, hr.contains_next hs, hl, and_true,
    hr.prev_eq_iff]

/-- Splicing keeps a table linked. -/
theorem Linked.spliceBack (hr : r.Linked) {l source : ListId} (hl : r.Contains (.sentinel l))
    (hs : r.Contains (.sentinel source)) (hne : l ≠ source)
    (hfull : r.next (.sentinel source) ≠ .sentinel source) : (r.spliceBack l source).Linked where
  prev_next := by
    intro z
    have hpn := hr.prev_next
    have hnp := hr.next_prev
    rw [hr.prev_spliceBack hl hs hfull, hr.next_spliceBack hl hs hfull]
    grind
  next_prev := by
    intro z
    have hpn := hr.prev_next
    have hnp := hr.next_prev
    rw [hr.prev_spliceBack hl hs hfull, hr.next_spliceBack hl hs hfull]
    grind

/-! ## Paths -/

/-- Following `next` from `x` visits the nodes in order and then arrives at `y`. -/
def Path (next : Link → Link) : Link → List NodeId → Link → Prop
  | x, [], y => next x = y
  | x, n :: ns, y => next x = .node n ∧ Path next (.node n) ns y

variable {f g : Link → Link} {ns : List NodeId}

/-- A path goes on from where it arrives. -/
theorem Path.append {ms : List NodeId} (hx : Path f x ns (.node n)) (hn : Path f (.node n) ms y) :
    Path f x (ns ++ n :: ms) y := by
  induction ns generalizing x with
  | nil => exact ⟨hx, hn⟩
  | cons k ns ih => exact ⟨hx.1, ih hx.2⟩

/-- A path is still there if the links on it are, and arrives elsewhere if its last link does. -/
theorem Path.redirect {y' : Link} (hp : Path f x ns y) (hy : ∀ n ∈ ns, Link.node n ≠ y)
    (hg : ∀ z, z = x ∨ (∃ n ∈ ns, z = .node n) → g z = if f z = y then y' else f z) :
    Path g x ns y' := by
  induction ns generalizing x with
  | nil =>
    have hx : f x = y := hp
    show g x = y'
    rw [hg x (.inl rfl), if_pos hx]
  | cons n ns ih =>
    obtain ⟨hx, hn⟩ := hp
    have hny := hy n List.mem_cons_self
    refine ⟨?_, ih hn (fun k hk => hy k (List.mem_cons_of_mem n hk)) fun z hz => hg z (.inr ?_)⟩
    · rw [hg x (.inl rfl), hx, if_neg hny]
    · obtain rfl | ⟨k, hk, rfl⟩ := hz
      · exact ⟨n, List.mem_cons_self, rfl⟩
      · exact ⟨k, List.mem_cons_of_mem n hk, rfl⟩

/-- A path is still there if the links on it are. -/
theorem Path.congr (hp : Path f x ns y) (hg : ∀ z, z = x ∨ (∃ n ∈ ns, z = .node n) → g z = f z) :
    Path g x ns y := by
  induction ns generalizing x with
  | nil => exact (hg x (.inl rfl)).trans hp
  | cons n ns ih =>
    refine ⟨(hg x (.inl rfl)).trans hp.1, ih hp.2 fun z hz => hg z (.inr ?_)⟩
    obtain rfl | ⟨k, hk, rfl⟩ := hz
    · exact ⟨n, List.mem_cons_self, rfl⟩
    · exact ⟨k, List.mem_cons_of_mem n hk, rfl⟩

/-- A link on a path is followed by a node of the path or by its end. -/
theorem Path.next_eq (hp : Path f x ns y) (hz : z = x ∨ ∃ n ∈ ns, z = .node n) :
    f z = y ∨ ∃ n ∈ ns, f z = .node n := by
  induction ns generalizing x with
  | nil =>
    obtain rfl | ⟨n, hn, -⟩ := hz
    · exact .inl hp
    · cases hn
  | cons n ns ih =>
    obtain ⟨hx, hn⟩ := hp
    obtain rfl | ⟨k, hk, rfl⟩ := hz
    · exact .inr ⟨n, List.mem_cons_self, hx⟩
    · have hk' : Link.node k = .node n ∨ ∃ m ∈ ns, Link.node k = .node m := by
        obtain rfl | hk := List.mem_cons.1 hk
        · exact .inl rfl
        · exact .inr ⟨k, hk, rfl⟩
      obtain hy | ⟨m, hm, hf⟩ := ih hn hk'
      · exact .inl hy
      · exact .inr ⟨m, List.mem_cons_of_mem n hm, hf⟩

/-- On a path to a sentinel no other sentinel comes next. -/
theorem Path.next_ne_sentinel (hp : Path f x ns (.sentinel l)) {k : ListId} (hkl : k ≠ l)
    (hz : z = x ∨ ∃ n ∈ ns, z = .node n) : f z ≠ .sentinel k := by
  obtain hy | ⟨n, -, hn⟩ := hp.next_eq hz
  · simpa [hy] using hkl.symm
  · simp [hn]

/-- A path leads past a node that `next` goes around. -/
theorem Path.erase (hp : Path f x ns y) (hnd : ns.Nodup) (hx : x ≠ .node n) (hy : y ≠ .node n)
    (hg : ∀ z, z ≠ .node n → g z = if f z = .node n then f (.node n) else f z) :
    Path g x (ns.erase n) y := by
  induction ns generalizing x with
  | nil =>
    have hf : f x = y := hp
    show g x = y
    rw [hg x hx, hf, if_neg hy]
  | cons m ns ih =>
    obtain ⟨hf, hm⟩ := hp
    obtain ⟨hmem, hnd⟩ := List.nodup_cons.1 hnd
    by_cases hmn : m = n
    · subst hmn
      rw [List.erase_cons_head]
      have hgx : g x = f (.node m) := by rw [hg x hx, if_pos hf]
      -- Beyond the node nothing leads to it, so the rest of the path is as it was.
      cases ns with
      | nil => exact hgx.trans hm
      | cons k ks =>
        refine ⟨hgx.trans hm.1, hm.2.congr fun z hz => ?_⟩
        have hzm : z ≠ .node m := by
          rintro rfl
          obtain hz | ⟨j, hj, hz⟩ := hz
          · cases hz
            exact hmem List.mem_cons_self
          · cases hz
            exact hmem (List.mem_cons_of_mem k hj)
        rw [hg z hzm, if_neg]
        intro hfz
        obtain hzy | ⟨j, hj, hzj⟩ := hm.2.next_eq hz
        · exact hy (hzy.symm.trans hfz)
        · rw [hzj] at hfz
          cases hfz
          exact hmem (List.mem_cons_of_mem k hj)
    · rw [List.erase_cons_tail (by simpa using hmn)]
      have hne : Link.node m ≠ .node n := by simpa using hmn
      refine ⟨?_, ih hm hnd hne⟩
      rw [hg x hx, hf, if_neg hne]

/-- The way back along a path visits its nodes in reverse order, if `prev` undoes `next` on it. -/
theorem Path.reverse (hp : Path r.next x ns y)
    (hback : ∀ z, z = x ∨ (∃ n ∈ ns, z = .node n) → r.prev (r.next z) = z) :
    Path r.prev y ns.reverse x := by
  induction ns generalizing x with
  | nil => exact (show r.next x = y from hp) ▸ hback x (.inl rfl)
  | cons n ns ih =>
    obtain ⟨hx, hn⟩ := hp
    rw [List.reverse_cons]
    have hrest : Path r.prev y ns.reverse (.node n) := ih hn fun z hz => by
      refine hback z (.inr ?_)
      obtain rfl | ⟨k, hk, rfl⟩ := hz
      · exact ⟨n, List.mem_cons_self, rfl⟩
      · exact ⟨k, List.mem_cons_of_mem n hk, rfl⟩
    exact hrest.append (hx ▸ hback x (.inl rfl))

/-- There is one way at most from a link to a sentinel. -/
theorem Path.unique {ms : List NodeId} (hp : Path f x ns (.sentinel l))
    (hq : Path f x ms (.sentinel l)) : ns = ms := by
  induction ns generalizing x ms with
  | nil =>
    cases ms with
    | nil => rfl
    | cons m ms => cases (show f x = .sentinel l from hp).symm.trans hq.1
  | cons n ns ih =>
    cases ms with
    | nil => cases (show f x = .sentinel l from hq).symm.trans hp.1
    | cons m ms =>
      obtain ⟨hx, hn⟩ := hp
      obtain ⟨hx', hm⟩ := hq
      cases hx.symm.trans hx'
      rw [ih hn hm]

/-- From a node on it a path goes on as it does. -/
theorem Path.from_mem {ms : List NodeId} (hp : Path f x (ns ++ n :: ms) y) :
    Path f (.node n) ms y := by
  induction ns generalizing x with
  | nil => exact hp.2
  | cons k ns ih => exact ih hp.2

/-- A path to a sentinel visits no node twice: it would go round for ever. -/
theorem Path.nodup (hp : Path f x ns (.sentinel l)) : ns.Nodup := by
  induction ns generalizing x with
  | nil => exact List.nodup_nil
  | cons n ns ih =>
    refine List.nodup_cons.2 ⟨fun hn => ?_, ih hp.2⟩
    obtain ⟨as, bs, rfl⟩ := List.append_of_mem hn
    have hlen := congrArg List.length (Path.unique hp.2 (Path.from_mem hp.2))
    rw [List.length_append, List.length_cons] at hlen
    omega

/-- A walk along a path to a sentinel meets its nodes, given enough steps. -/
theorem walk_of_path {fuel : Nat} (hp : Path r.next x ns (.sentinel l)) (hfuel : ns.length < fuel) :
    r.walk l fuel (r.next x) = ns := by
  induction ns generalizing x fuel with
  | nil =>
    obtain ⟨fuel, rfl⟩ := Nat.exists_eq_add_of_lt hfuel
    have hx : r.next x = .sentinel l := hp
    simp [walk, hx]
  | cons n ns ih =>
    obtain ⟨hx, hn⟩ := hp
    cases fuel with
    | zero => simp at hfuel
    | succ fuel =>
      rw [List.length_cons, Nat.add_lt_add_iff_right] at hfuel
      rw [hx, walk, if_neg (by simp), ih hn hfuel]

/-! ## Lists held by a table -/

/-- The table holds these lists: a ring for each, and no other node is on a ring. -/
structure Holds (r : Rings) (s : ListId → List NodeId) : Prop where
  linked : r.Linked
  path : ∀ l < r.sentinels.size, Path r.next (.sentinel l) (s l) (.sentinel l)
  nodup : ∀ l, (s l).Nodup
  disjoint : ∀ {l k n}, n ∈ s l → n ∈ s k → l = k
  bounded : ∀ {l n}, n ∈ s l → l < r.sentinels.size ∧ n < r.nodes.size
  isolated : ∀ n, (∀ l, n ∉ s l) → r.next (.node n) = .node n

variable {s : ListId → List NodeId}

/-- A list that a table holds is no longer than there are nodes. -/
theorem Holds.length_le (hr : r.Holds s) (l : ListId) : (s l).length ≤ r.nodes.size := by
  have hsub : s l ⊆ List.range r.nodes.size := by
    intro n hn
    exact List.mem_range.2 (hr.bounded hn).2
  have hlen := (List.subperm_of_subset (hr.nodup l) hsub).length_le
  rwa [List.length_range] at hlen

/-- Walking a list that a table holds yields that list. -/
theorem Holds.toList_eq (hr : r.Holds s) : r.toList = s := by
  funext l
  unfold toList
  by_cases hl : l < r.sentinels.size
  · exact walk_of_path (hr.path l hl) (Nat.lt_succ_of_le (hr.length_le l))
  · have hnil : s l = [] := List.eq_nil_iff_forall_not_mem.2 fun n hn => hl (hr.bounded hn).1
    have hnext : r.next (.sentinel l) = .sentinel l := by
      unfold next
      rw [ends_of_not_contains (x := .sentinel l) hl]
    rw [hnil, hnext]
    simp [walk]

@[simp] theorem size_sentinels_unlink (r : Rings) (x : Link) :
    (r.unlink x).sentinels.size = r.sentinels.size := by
  simp [unlink, setNext, setPrev, isolate]

@[simp] theorem size_nodes_unlink (r : Rings) (x : Link) :
    (r.unlink x).nodes.size = r.nodes.size := by
  simp [unlink, setNext, setPrev, isolate]

@[simp] theorem size_sentinels_insertBefore (r : Rings) (x anchor : Link) :
    (r.insertBefore x anchor).sentinels.size = r.sentinels.size := by
  simp [insertBefore, setNext, setPrev]

@[simp] theorem size_nodes_insertBefore (r : Rings) (x anchor : Link) :
    (r.insertBefore x anchor).nodes.size = r.nodes.size := by
  simp [insertBefore, setNext, setPrev]

@[simp] theorem size_sentinels_spliceBack (r : Rings) (l source : ListId) :
    (r.spliceBack l source).sentinels.size = r.sentinels.size := by
  unfold spliceBack
  split_ifs <;> simp [setNext, setPrev, isolate]

@[simp] theorem size_nodes_spliceBack (r : Rings) (l source : ListId) :
    (r.spliceBack l source).nodes.size = r.nodes.size := by
  unfold spliceBack
  split_ifs <;> simp [setNext, setPrev, isolate]

/-- Unlinking a node removes it from whatever list it is on. -/
theorem Holds.unlink (hr : r.Holds s) (n : NodeId) :
    (r.unlink (.node n)).Holds fun l => (s l).erase n where
  linked := hr.linked.unlink _
  path := by
    intro l hl
    rw [size_sentinels_unlink] at hl
    refine (hr.path l hl).erase (hr.nodup l) (by simp) (by simp) fun z hz => ?_
    rw [hr.linked.next_unlink, if_neg hz]
  nodup := fun l => (hr.nodup l).erase n
  disjoint := fun hl hk => hr.disjoint (List.mem_of_mem_erase hl) (List.mem_of_mem_erase hk)
  bounded := by
    intro l k hk
    simpa using hr.bounded (List.mem_of_mem_erase hk)
  isolated := by
    intro k hk
    rw [hr.linked.next_unlink]
    by_cases hkn : k = n
    · simp [hkn]
    · have hself := hr.isolated k fun l hl => hk l ((List.mem_erase_of_ne hkn).2 hl)
      simp [hkn, hself]

/-- What is on a list or begins it is none of the nodes that are on no list. -/
theorem ne_node_of_passed {n : NodeId} (hn : n ∉ ns)
    (hz : z = .sentinel l ∨ ∃ m ∈ ns, z = .node m) : z ≠ .node n := by
  rintro rfl
  obtain hz | ⟨m, hm, hz⟩ := hz
  · cases hz
  · cases hz
    exact hn hm

/-- What is on a list or begins it is the sentinel of no other. -/
theorem ne_sentinel_of_passed {k : ListId} (hkl : k ≠ l)
    (hz : z = .sentinel l ∨ ∃ m ∈ ns, z = .node m) : z ≠ .sentinel k := by
  rintro rfl
  obtain hz | ⟨m, -, hz⟩ := hz
  · exact hkl (by simpa using hz)
  · cases hz

/-- Inserting a node before a sentinel appends it to the list, if it is on none. -/
theorem Holds.insertBefore (hr : r.Holds s) {l : ListId} {n : NodeId} (hn : ∀ k, n ∉ s k)
    (hlt : n < r.nodes.size) (hl : l < r.sentinels.size) :
    (r.insertBefore (.node n) (.sentinel l)).Holds fun k => if k = l then s k ++ [n] else s k := by
  have hself := hr.isolated n hn
  have hnext := @Linked.next_insertBefore r hr.linked (.node n) (.sentinel l) hself hlt hl (by simp)
  exact
    { linked := hr.linked.insertBefore hself hlt hl (by simp)
      path := fun k hk => by
        rw [size_sentinels_insertBefore] at hk
        have hpath := hr.path k hk
        by_cases hkl : k = l
        · subst hkl
          rw [if_pos rfl]
          refine Path.append (hpath.redirect (by simp) fun z hz => ?_) ?_
          · rw [hnext, if_neg (ne_node_of_passed (hn k) hz)]
          · show (r.insertBefore (.node n) (.sentinel k)).next (.node n) = _
            rw [hnext, if_pos rfl]
        · rw [if_neg hkl]
          refine hpath.congr fun z hz => ?_
          rw [hnext, if_neg (ne_node_of_passed (hn k) hz),
            if_neg (hpath.next_ne_sentinel (Ne.symm hkl) hz)]
      nodup := fun k => by
        split_ifs
        · rw [← List.concat_eq_append, List.nodup_concat]
          exact ⟨hn k, hr.nodup k⟩
        · exact hr.nodup k
      disjoint := fun hk hj => by grind [hr.disjoint]
      bounded := fun {k m} hm => by
        rw [size_sentinels_insertBefore, size_nodes_insertBefore]
        split_ifs at hm with hkl
        · obtain hm | hm := List.mem_append.1 hm
          · exact hr.bounded hm
          · rw [List.mem_singleton] at hm
            exact ⟨hkl ▸ hl, hm ▸ hlt⟩
        · exact hr.bounded hm
      isolated := fun m hm => by
        have hmn : m ≠ n := by
          rintro rfl
          simpa using hm l
        have hms : ∀ k, m ∉ s k := by
          intro k hk
          have hmk := hm k
          split_ifs at hmk
          · exact hmk (List.mem_append_left _ hk)
          · exact hmk hk
        rw [hnext, if_neg (by simpa using hmn), hr.isolated m hms, if_neg (by simp)] }

/-- Moving a node to the back of a list removes it from any list and appends it to that one. -/
theorem Holds.pushBack (hr : r.Holds s) {l : ListId} {n : NodeId} (hlt : n < r.nodes.size)
    (hl : l < r.sentinels.size) :
    (r.pushBack l n).Holds fun k => if k = l then (s k).erase n ++ [n] else (s k).erase n :=
  (hr.unlink n).insertBefore (fun k => (hr.nodup k).not_mem_erase) (by simpa using hlt)
    (by simpa using hl)

@[simp] theorem size_sentinels_pushBack (r : Rings) (l : ListId) (n : NodeId) :
    (r.pushBack l n).sentinels.size = r.sentinels.size := by
  simp [Rings.pushBack]

@[simp] theorem size_nodes_pushBack (r : Rings) (l : ListId) (n : NodeId) :
    (r.pushBack l n).nodes.size = r.nodes.size := by
  simp [Rings.pushBack]

/-- Nothing follows a sentinel exactly when its list has no nodes. -/
theorem Holds.next_sentinel_eq_iff (hr : r.Holds s) (hl : l < r.sentinels.size) :
    r.next (.sentinel l) = .sentinel l ↔ s l = [] := by
  have hpath := hr.path l hl
  cases hs : s l with
  | nil =>
    rw [hs] at hpath
    exact iff_of_true hpath rfl
  | cons n ns =>
    rw [hs] at hpath
    rw [hpath.1]
    simp

/-- Splicing a list without nodes changes nothing. -/
theorem Holds.spliceBack_of_nil (hr : r.Holds s) {l source : ListId}
    (hs : source < r.sentinels.size) (hnil : s source = []) : r.spliceBack l source = r := by
  have hempty : r.isEmpty source = true := by
    simpa [isEmpty] using (hr.next_sentinel_eq_iff hs).2 hnil
  unfold Rings.spliceBack
  rw [if_pos hempty]

/-- The list that another is spliced to leads on through the nodes of that one. -/
theorem Holds.path_spliceBack (hr : r.Holds s) {l source : ListId} (hl : l < r.sentinels.size)
    (hs : source < r.sentinels.size) (hne : l ≠ source) (hsource : s source ≠ []) :
    Path (r.spliceBack l source).next (.sentinel l) (s l ++ s source) (.sentinel l) := by
  have hnext := hr.linked.next_spliceBack hl hs (mt (hr.next_sentinel_eq_iff hs).1 hsource)
  obtain ⟨m, ms, hms⟩ := List.exists_cons_of_ne_nil hsource
  have hpath := hr.path source hs
  rw [hms] at hpath ⊢
  -- The end of the one list now leads to the first node of the other, and the end of the other to
  -- the sentinel of the one.
  refine Path.append ((hr.path l hl).redirect (by simp) fun z hz => ?_)
    (hpath.2.redirect (by simp) fun z hz => ?_)
  · rw [hnext, if_neg (ne_sentinel_of_passed hne.symm hz),
      if_neg ((hr.path l hl).next_ne_sentinel hne.symm hz), hpath.1]
  · have hz' : z ≠ .sentinel source := by
      rintro rfl
      obtain hz | ⟨n, -, hz⟩ := hz <;> cases hz
    rw [hnext, if_neg hz']
    split_ifs with hfz hzl
    · rfl
    · exact absurd hzl (hpath.2.next_ne_sentinel hne hz)
    · rfl

/-- Splicing a list to the back of another appends its nodes there and leaves it without any. -/
theorem Holds.spliceBack (hr : r.Holds s) {l source : ListId} (hl : l < r.sentinels.size)
    (hs : source < r.sentinels.size) (hne : l ≠ source) :
    (r.spliceBack l source).Holds fun k =>
      if k = source then [] else if k = l then s l ++ s source else s k := by
  by_cases hsource : s source = []
  · have hsame : (fun k => if k = source then [] else if k = l then s l ++ s source else s k) =
        s := by
      funext k
      split_ifs with hks hkl
      · rw [hks, hsource]
      · rw [hkl, hsource, List.append_nil]
      · rfl
    rwa [hsame, hr.spliceBack_of_nil hs hsource]
  · have hfull := mt (hr.next_sentinel_eq_iff hs).1 hsource
    have hnext := hr.linked.next_spliceBack hl hs hfull
    exact
      { linked := hr.linked.spliceBack hl hs hne hfull
        path := fun k hk => by
          rw [size_sentinels_spliceBack] at hk
          split_ifs with hks hkl
          · subst hks
            show (r.spliceBack l k).next (.sentinel k) = _
            rw [hnext, if_pos rfl]
          · subst hkl
            exact hr.path_spliceBack hk hs hne hsource
          · refine (hr.path k hk).congr fun z hz => ?_
            rw [hnext, if_neg (ne_sentinel_of_passed (Ne.symm hks) hz),
              if_neg ((hr.path k hk).next_ne_sentinel (Ne.symm hks) hz),
              if_neg ((hr.path k hk).next_ne_sentinel (Ne.symm hkl) hz)]
        nodup := fun k => by
          split_ifs
          · exact List.nodup_nil
          · refine List.nodup_append.2 ⟨hr.nodup l, hr.nodup source, ?_⟩
            rintro a ha b hb rfl
            exact hne (hr.disjoint ha hb)
          · exact hr.nodup k
        disjoint := fun hk hj => by grind [hr.disjoint]
        bounded := fun {k n} hn => by
          rw [size_sentinels_spliceBack, size_nodes_spliceBack]
          split_ifs at hn with hks hkl
          · cases hn
          · obtain hn | hn := List.mem_append.1 hn
            · exact hkl ▸ hr.bounded hn
            · exact ⟨hkl ▸ hl, (hr.bounded hn).2⟩
          · exact hr.bounded hn
        isolated := fun n hn => by
          have hns : ∀ k, n ∉ s k := by
            intro k hk
            have hnl := hn l
            have hnk := hn k
            grind
          rw [hnext, if_neg (by simp), hr.isolated n hns, if_neg (by simp), if_neg (by simp)] }

/-- A new node is on no list, and pointing at itself it looks like a link that is not there. -/
theorem ends_newNode (r : Rings) (z : Link) : r.newNode.ends z = r.ends z := by
  cases z with
  | sentinel l => rfl
  | node n =>
    simp only [ends, newNode, Array.getElem?_push]
    split_ifs with hn
    · simp [hn]
    · rfl

/-- A new sentinel points at itself too. -/
theorem ends_newList (r : Rings) (z : Link) : r.newList.2.ends z = r.ends z := by
  cases z with
  | sentinel l =>
    simp only [ends, newList, Array.getElem?_push]
    split_ifs with hl
    · simp [hl]
    · rfl
  | node n => rfl

/-- A table in which every link has the ends it had holds the lists it held. -/
theorem Holds.of_ends {r' : Rings} (hr : r.Holds s) (hends : ∀ z, r'.ends z = r.ends z)
    (hsentinels : r.sentinels.size ≤ r'.sentinels.size) (hnodes : r.nodes.size ≤ r'.nodes.size) :
    r'.Holds s := by
  have hnext : r'.next = r.next := funext fun z => by rw [next, next, hends]
  have hprev : r'.prev = r.prev := funext fun z => by rw [prev, prev, hends]
  refine ⟨⟨?_, ?_⟩, ?_, hr.nodup, hr.disjoint, ?_, ?_⟩
  · rw [hnext, hprev]
    exact hr.linked.prev_next
  · rw [hnext, hprev]
    exact hr.linked.next_prev
  · rw [hnext]
    intro l _
    by_cases hl : l < r.sentinels.size
    · exact hr.path l hl
    · -- A list that was not in the table had no nodes, and its sentinel pointed at itself.
      have hnil : s l = [] := List.eq_nil_iff_forall_not_mem.2 fun n hn => hl (hr.bounded hn).1
      rw [hnil]
      show r.next (.sentinel l) = .sentinel l
      unfold next
      rw [ends_of_not_contains (x := .sentinel l) hl]
  · intro l n hn
    obtain ⟨hl, hlt⟩ := hr.bounded hn
    exact ⟨Nat.lt_of_lt_of_le hl hsentinels, Nat.lt_of_lt_of_le hlt hnodes⟩
  · rw [hnext]
    exact hr.isolated

/-- A new node changes no list. -/
theorem Holds.newNode (hr : r.Holds s) : r.newNode.Holds s :=
  hr.of_ends (ends_newNode r) (Nat.le_refl _) (by simp [Rings.newNode])

/-- A new list has no nodes and changes no other. -/
theorem Holds.newList (hr : r.Holds s) : r.newList.2.Holds s :=
  hr.of_ends (ends_newList r) (by simp [Rings.newList]) (Nat.le_refl _)

/-- Where there are no links there are lists without nodes. -/
theorem holds_empty : empty.Holds fun _ => [] := by
  have hends : ∀ z, empty.ends z = ⟨z, z⟩ := fun z => by cases z <;> rfl
  have hnext : ∀ z, empty.next z = z := fun z => by rw [next, hends]
  have hprev : ∀ z, empty.prev z = z := fun z => by rw [prev, hends]
  refine ⟨⟨fun x => ?_, fun x => ?_⟩, fun l _ => hnext _, fun _ => List.nodup_nil, ?_, ?_,
    fun n _ => hnext _⟩
  · rw [hnext, hprev]
  · rw [hprev, hnext]
  · intro l k n hn
    cases hn
  · intro l n hn
    cases hn

/-- Two lists without nodes, over no nodes. -/
theorem holds_newList : (empty.newList.2.newList.2).Holds fun _ => [] :=
  holds_empty.newList.newList

/-! ## Sound tables -/

/-- The links are those of the lists that `toList` walks. -/
def Sound (r : Rings) : Prop := r.Holds r.toList

/-- A table that holds lists is sound. -/
theorem Holds.sound (hr : r.Holds s) : r.Sound := by
  unfold Sound
  rwa [hr.toList_eq]

theorem Sound.unlink (hr : r.Sound) (n : NodeId) : (r.unlink (.node n)).Sound :=
  (Holds.unlink hr n).sound

theorem Sound.toList_unlink (hr : r.Sound) (n : NodeId) (l : ListId) :
    (r.unlink (.node n)).toList l = (r.toList l).erase n := by
  rw [(Holds.unlink hr n).toList_eq]

theorem Sound.pushBack (hr : r.Sound) (hn : n < r.nodes.size) (hl : l < r.sentinels.size) :
    (r.pushBack l n).Sound :=
  (Holds.pushBack hr hn hl).sound

theorem Sound.toList_pushBack (hr : r.Sound) (hn : n < r.nodes.size) (hl : l < r.sentinels.size)
    (k : ListId) : (r.pushBack l n).toList k =
      if k = l then (r.toList k).erase n ++ [n] else (r.toList k).erase n := by
  rw [(Holds.pushBack hr hn hl).toList_eq]

theorem Sound.spliceBack {source : ListId} (hr : r.Sound) (hl : l < r.sentinels.size)
    (hs : source < r.sentinels.size) (hne : l ≠ source) : (r.spliceBack l source).Sound :=
  (Holds.spliceBack hr hl hs hne).sound

theorem Sound.toList_spliceBack {source : ListId} (hr : r.Sound) (hl : l < r.sentinels.size)
    (hs : source < r.sentinels.size) (hne : l ≠ source) (k : ListId) :
    (r.spliceBack l source).toList k =
      if k = source then [] else if k = l then r.toList l ++ r.toList source else r.toList k := by
  rw [(Holds.spliceBack hr hl hs hne).toList_eq]

theorem Sound.newNode (hr : r.Sound) : r.newNode.Sound := (Holds.newNode hr).sound

theorem Sound.toList_newNode (hr : r.Sound) : r.newNode.toList = r.toList :=
  (Holds.newNode hr).toList_eq

/-- The front of a list is its first node. -/
theorem Sound.front?_eq (hr : r.Sound) (hl : l < r.sentinels.size) :
    r.front? l = (r.toList l).head? := by
  have hpath := Holds.path hr l hl
  unfold front?
  cases hs : r.toList l with
  | nil =>
    rw [hs] at hpath
    have hnext : r.next (.sentinel l) = .sentinel l := hpath
    rw [hnext]
    rfl
  | cons n ns =>
    rw [hs] at hpath
    rw [hpath.1]
    rfl

end Rings

end HybridHeap
