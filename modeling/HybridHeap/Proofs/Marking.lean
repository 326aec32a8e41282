import Mathlib.Data.Finset.Card
import Mathlib.Data.Finset.Range
import HybridHeap.Collector.Mark
import HybridHeap.Proofs.Counting

/-!
# Marking

Depth first marking visits nodes one at a time, each by the same move: a node that is not marked
yet is marked, put on the reachable list and left on the stack. What this keeps is `Explores`, and
all loops of marking only repeat it. It is stated for any `Scope`, a set of nodes that holds the
roots and what marking may go on to from there. With the nodes that have storage as the scope it
says that marking keeps the invariant, with what is reachable as the scope that marking is exact.
Nodes that look marked when marking begins are passed by, as they may be in a scarred heap.
-/

namespace HybridHeap

open Collector

/-- The heaps differ in marks, lists and events only. -/
structure Repainted (h h' : Heap) : Prop where
  restamped : Restamped { h with rings := h'.rings, events := h'.events } h'
  queue : h'.moribund = h.moribund
  counts : ∀ n, (h'.status n).count = (h.status n).count
  flags : ∀ n f, f ≠ .mark → (h'.status n).contains f = (h.status n).contains f

namespace Repainted

variable {h h' h'' : Heap}

theorem refl (h : Heap) : Repainted h h := ⟨.refl h, rfl, fun _ => rfl, fun _ _ _ => rfl⟩

theorem trans (h₁ : Repainted h h') (h₂ : Repainted h' h'') : Repainted h h'' where
  restamped :=
    { eq := by
        rw [h₂.restamped.eq, h₁.restamped.eq]
      shells := h₂.restamped.shells.trans h₁.restamped.shells }
  queue := h₂.queue.trans h₁.queue
  counts := fun n => (h₂.counts n).trans (h₁.counts n)
  flags := fun n f hf => (h₂.flags n f hf).trans (h₁.flags n f hf)

theorem size_nodes (hr : Repainted h h') : h'.nodes.size = h.nodes.size := hr.restamped.size_nodes

theorem isAllocated (hr : Repainted h h') : h'.isAllocated = h.isAllocated :=
  hr.restamped.isAllocated

theorem kind (hr : Repainted h h') : h'.kind = h.kind := hr.restamped.kind

theorem payload? (hr : Repainted h h') : h'.payload? = h.payload? := hr.restamped.payload?

theorem roots (hr : Repainted h h') : h'.roots = h.roots := hr.restamped.roots

theorem cycle (hr : Repainted h h') : h'.cycle = h.cycle := hr.restamped.cycle

theorem flips (hr : Repainted h h') : h'.flips = h.flips := hr.restamped.flips

theorem isDetached (hr : Repainted h h') : h'.isDetached = h.isDetached := by
  funext n
  exact hr.flags n .detached (by decide)

/-- The nodes are traced to the same edges. -/
theorem traced (hr : Repainted h h') (n : NodeId) :
    (Collector.traced h' n).1 = (Collector.traced h n).1 := by
  unfold Collector.traced
  rw [hr.isDetached, hr.payload?, hr.kind]

end Repainted

variable {law : Law} {w : Juncture} {h : Heap} {n : NodeId}

/-- Moving a marked node to the reachable list keeps the invariant during a full collection. -/
theorem Invariant.pushReachable (inv : Invariant law { w with guard := some .full } h)
    (hkept : w.kept = none) (hn : h.isAllocated n = true)
    (hmark : (h.status n).contains .mark = h.cycle) :
    Invariant law { w with guard := some .full }
      (h.modifyRings (·.pushBack reachableList n)) := by
  have hlt : n < h.rings.nodes.size := by
    rw [inv.size_nodes]
    exact Heap.lt_size_of_isAllocated hn
  have hreach : reachableList < h.rings.sentinels.size := by
    rw [inv.size_sentinels]
    decide
  have hlist := inv.rings.toList_pushBack hlt hreach
  -- The one node that any list gains is this one.
  have hmem : ∀ k m, m ∈ (h.rings.pushBack reachableList n).toList k →
      m ∈ h.rings.toList k ∨ m = n := by
    intro k m hm
    rw [hlist] at hm
    split_ifs at hm
    · obtain hm | hm := List.mem_append.1 hm
      · exact .inl (List.mem_of_mem_erase hm)
      · exact .inr (List.mem_singleton.1 hm)
    · exact .inl (List.mem_of_mem_erase hm)
  exact
    { inv with
      rings := inv.rings.pushBack hlt hreach
      size_sentinels := (Rings.size_sentinels_pushBack _ _ _).trans inv.size_sentinels
      size_nodes := (Rings.size_nodes_pushBack _ _ _).trans inv.size_nodes
      listed := fun k m hm => by
        obtain hm | rfl := hmem k m hm
        · exact inv.listed k m hm
        · exact hn
      attached := fun m hm ha hd => by
        show m ∈ (h.rings.pushBack reachableList n).toList _ ∨
          m ∈ (h.rings.pushBack reachableList n).toList _
        rw [hlist, hlist, if_neg (by decide), if_pos rfl]
        by_cases hmn : m = n
        · simp [hmn]
        · rw [List.mem_append, List.mem_erase_of_ne hmn, List.mem_erase_of_ne hmn]
          exact (inv.attached m hm ha hd).imp_right .inl
      marked := fun hs m hm => by
        obtain hm | rfl := hmem _ m hm
        · exact inv.marked hs m hm
        · exact hmark
      settled := fun _ hw => absurd rfl hw
      lagging := fun _ l hl => by
        rw [Juncture.markedList_full hkept] at hl
        cases hl
      kept := fun l hl => absurd (hkept.symm.trans hl) (by simp)
      doomed := fun _ hw => by cases hw
      deaths := fun hw => (inv.deaths hw).change fun m hm =>
        .inr (hm.relist fun hk => absurd hkept hk) }

/-- Marking a node keeps the invariant during a full collection. -/
theorem Invariant.setMark (inv : Invariant law { w with guard := some .full } h)
    (hkept : w.kept = none) (hn : h.isAllocated n = true) :
    Invariant law { w with guard := some .full }
      (h.setStatus n ((h.status n).setMark h.cycle)) := by
  have hflag : ∀ m f, f ≠ .mark → ((h.setStatus n ((h.status n).setMark h.cycle)).status m).contains
      f = (h.status m).contains f := by
    intro m f hf
    rw [Heap.status_setStatus (Heap.lt_size_of_isAllocated hn)]
    split_ifs with hmn
    · simp [hf, hmn]
    · rfl
  have hdetached : ∀ m, (h.setStatus n ((h.status n).setMark h.cycle)).isDetached m =
      h.isDetached m := fun m => hflag m .detached (by decide)
  refine inv.reflag hn (Status.count_setMark _ _) (by simp) w.loose w.dropping
    (fun m hm ha hd => ?_) (fun hs m hm => ?_) (fun _ hw => absurd rfl hw)
    (fun hw => absurd (Juncture.markedList_full hkept) hw) (fun _ hm => hm) (fun m hm ha => ?_)
    (fun m hm => ?_) (fun m _ => hdetached m) (fun e he key hkey => ?_) ?_ fun _ hm => hm
  · rw [hdetached] at hd
    exact inv.attached m hm ha hd
  · rw [Heap.status_setStatus (Heap.lt_size_of_isAllocated hn)]
    split_ifs
    · simp
    · exact inv.marked hs m hm
  · rw [hdetached]
    exact inv.emptied m hm ha
  · rw [hdetached]
    exact inv.dropping m hm
  · rw [hflag key .weakKey (by decide)]
    exact (inv.weakKeys e he key hkey).2
  · rw [funext hdetached]
    exact inv.current

namespace Heap

/-- The heap after a node was marked. -/
def paint (h : Heap) (n : NodeId) : Heap :=
  (h.setStatus n ((h.status n).setMark h.cycle)).modifyRings (·.pushBack reachableList n)

/-- Marking a node changes marks and lists only. -/
theorem repainted_paint (hn : h.isAllocated n = true) : Repainted h (h.paint n) := by
  have hstatus := status_setStatus (lt_size_of_isAllocated hn) (s := (h.status n).setMark h.cycle)
  exact
    { restamped :=
        { eq := rfl
          shells := (restamped_setStatus h n _ h.moribund).shells }
      queue := rfl
      counts := fun k => by
        show ((h.setStatus n _).status k).count = _
        rw [hstatus]
        split_ifs with hkn
        · simp [hkn]
        · rfl
      flags := fun k f hf => by
        show ((h.setStatus n _).status k).contains f = _
        rw [hstatus]
        split_ifs with hkn
        · simp [hkn, hf]
        · rfl }

end Heap

/-- Marking a node and moving it to the reachable list keeps the invariant during a full
collection. -/
theorem Invariant.paint (inv : Invariant law { w with guard := some .full } h)
    (hkept : w.kept = none) (hn : h.isAllocated n = true) :
    Invariant law { w with guard := some .full } (h.paint n) := by
  have hset := (inv.setMark hkept hn).pushReachable (n := n) hkept
  rw [Heap.isAllocated_setStatus, Heap.status_setStatus (Heap.lt_size_of_isAllocated hn),
    if_pos rfl] at hset
  exact hset hn (by rw [Status.contains_setMark, if_pos rfl]; rfl)

/-- The cycle may be flipped while nothing is on the reachable list, and in a scarred heap at any
time. -/
theorem Invariant.flip (inv : Invariant law { w with guard := some .full } h)
    (hkept : w.kept = none) (hempty : w.scarred = false → h.rings.toList reachableList = [])
    (hturns : w.scarred = false → h.Turns) :
    Invariant law { w with guard := some .full } h.flip :=
  { inv with
    flips := fun hs => ⟨⟨hturns hs, (inv.flips hs).1⟩, fun n hn => by
      have halloc : h.isAllocated n = true := (Heap.mem_unmarked.1 hn).1
      show h.stage n ≠ _
      rw [Heap.isAllocated_iff.1 halloc]
      decide⟩
    lagging := fun _ l hl => by
      rw [Juncture.markedList_full hkept] at hl
      cases hl
    marked := fun hs n hn => by
      have hnil : n ∈ h.rings.toList reachableList := hn
      rw [hempty hs] at hnil
      cases hnil
    settled := fun _ hw => absurd rfl hw
    doomed := fun _ hw => by cases hw }

namespace Collector.Marking

/-- The nodes that have been marked since marking began, in the heap `h`. -/
def found (h : Heap) (m : Marking) : Finset NodeId :=
  (Finset.range h.nodes.size).filter fun n =>
    m.isMarked n = true ∧ (start h).isMarked n = false

@[simp] theorem mem_found {m : Marking} : n ∈ found h m ↔
    n < h.nodes.size ∧ m.isMarked n = true ∧ (start h).isMarked n = false := by
  unfold found
  rw [Finset.mem_filter, Finset.mem_range]

/-- A set of nodes that marking does not leave: it holds the roots, what is traced of its nodes
unless they look marked to begin with, and the values of the weak entries whose key is in it or
looks marked. -/
structure Scope (h : Heap) (Q : NodeId → Prop) : Prop where
  allocated : ∀ n, Q n → h.isAllocated n = true
  roots : ∀ n ∈ h.rootNodes, Q n
  edges : ∀ n, Q n → (start h).isMarked n = false → ∀ m ∈ (traced h n).1, Q m
  weak : ∀ e ∈ h.roots.weak.toList, ∀ key value, e.key = some key → e.value = some value →
    Q key ∨ (start h).isMarked key = true → Q value

/-- What holds while the nodes marked so far are being marked, from the heap `h` on. The edges of
the nodes in `ns` and of those on the stack may not have been visited. -/
structure Explores (law : Law) (w : Juncture) (h : Heap) (Q : NodeId → Prop) (ns : List NodeId)
    (m : Marking) : Prop where
  inv : Invariant law { w with guard := some .full } m.heap
  unswept : w.kept = none
  frame : Repainted h m.heap
  grown : ∀ n, (start h).isMarked n = true → m.isMarked n = true
  stacked : ∀ n ∈ m.stack, n ∈ found h m
  closed : ∀ n ∈ found h m, n ∉ m.stack → n ∉ ns → ∀ k ∈ (traced h n).1, m.isMarked k = true
  sound : ∀ n ∈ found h m, Q n
  listed : ∀ n, n ∈ m.heap.rings.toList reachableList ↔
    n ∈ h.rings.toList reachableList ∨ n ∈ found h m
  live : ∀ n, n ∈ m.heap.rings.toList liveList ↔ n ∈ h.rings.toList liveList ∧ n ∉ found h m
  count : m.count = (found h m).card

/-- Further nodes have been marked, and left on the stack or taken from it. -/
structure Advances (m m' : Marking) : Prop where
  marked : ∀ n, m.isMarked n = true → m'.isMarked n = true
  balance : m'.stack.length + m.count = m.stack.length + m'.count

theorem Advances.refl (m : Marking) : Advances m m := ⟨fun _ hn => hn, rfl⟩

theorem Advances.trans {m m' m'' : Marking} (h₁ : Advances m m') (h₂ : Advances m' m'') :
    Advances m m'' where
  marked := fun n hn => h₂.marked n (h₁.marked n hn)
  balance := by
    have := h₁.balance
    have := h₂.balance
    omega

variable {Q : NodeId → Prop} {ns : List NodeId} {m : Marking}

/-- No more nodes are marked than there are. -/
theorem Explores.count_le (he : Explores law w h Q ns m) : m.count ≤ h.nodes.size := by
  have hcard : (found h m).card ≤ (Finset.range h.nodes.size).card := Finset.card_filter_le _ _
  rw [Finset.card_range] at hcard
  exact he.count.trans_le hcard

/-- What is marked has been marked just now, or looked marked to begin with. -/
theorem Explores.marked (he : Explores law w h Q ns m) (hn : m.isMarked n = true) :
    n ∈ found h m ∨ (start h).isMarked n = true := by
  cases hstart : (start h).isMarked n with
  | true => exact .inr rfl
  | false =>
    refine .inl (mem_found.2 ⟨?_, hn, hstart⟩)
    by_contra hge
    -- A node that there is not looks the same throughout.
    have hsame : m.isMarked n = (start h).isMarked n := by
      have hnone : h.nodes[n]? = none := Array.getElem?_eq_none (Nat.not_lt.1 hge)
      have hnone' : m.heap.nodes[n]? = none := by
        refine Array.getElem?_eq_none ?_
        rw [he.frame.size_nodes]
        exact Nat.not_lt.1 hge
      unfold isMarked Heap.readsMarked start Heap.status
      rw [hnone, hnone', he.frame.cycle]
    rw [hn, hstart] at hsame
    cases hsame

/-- Visiting a node that is marked does nothing. -/
theorem visit_of_isMarked (hmark : m.isMarked n = true) : m.visit n = m := if_pos hmark

/-- Visiting a node that is not marked marks it and leaves its edges for later. -/
theorem visit_of_not_isMarked (hmark : m.isMarked n = false) :
    m.visit n = ⟨m.heap.paint n, n :: m.stack, m.count + 1⟩ :=
  if_neg (by rw [hmark]; exact Bool.false_ne_true)

/-- Visiting a node makes a difference to its own mark only. -/
theorem isMarked_visit (hn : m.heap.isAllocated n = true) {k : NodeId} :
    (m.visit n).isMarked k = true ↔ m.isMarked k = true ∨ k = n := by
  cases hmark : m.isMarked n with
  | true =>
    rw [visit_of_isMarked hmark, or_iff_left_of_imp]
    rintro rfl
    exact hmark
  | false =>
    rw [visit_of_not_isMarked hmark]
    show (((m.heap.setStatus n ((m.heap.status n).setMark m.heap.cycle)).status k).contains
      .mark == m.heap.cycle) = true ↔ _
    rw [Heap.status_setStatus (Heap.lt_size_of_isAllocated hn)]
    split_ifs with hkn
    · simp [hkn]
    · rw [or_iff_left hkn]
      rfl

/-- A node that is visited for the first time is added to what has been found. -/
theorem Explores.found_visit (he : Explores law w h Q ns m) (hn : h.isAllocated n = true)
    (hmark : m.isMarked n = false) :
    n ∉ found h m ∧ found h (m.visit n) = insert n (found h m) := by
  have hstart : (start h).isMarked n = false := by
    by_contra hstart
    rw [he.grown n (Bool.eq_true_of_not_eq_false hstart)] at hmark
    cases hmark
  refine ⟨fun hf => ?_, ?_⟩
  · rw [(mem_found.1 hf).2.1] at hmark
    cases hmark
  · ext k
    rw [Finset.mem_insert, mem_found, mem_found,
      isMarked_visit (by rw [he.frame.isAllocated]; exact hn)]
    constructor
    · rintro ⟨hk, hmk | rfl, hsk⟩
      · exact .inr ⟨hk, hmk, hsk⟩
      · exact .inl rfl
    · rintro (rfl | ⟨hk, hmk, hsk⟩)
      · exact ⟨Heap.lt_size_of_isAllocated hn, .inr rfl, hstart⟩
      · exact ⟨hk, .inl hmk, hsk⟩

/-- A node that is visited for the first time is put at the end of the reachable list. -/
theorem Explores.toList_reachable_visit (he : Explores law w h Q ns m)
    (hn : h.isAllocated n = true) (hmark : m.isMarked n = false) :
    (m.visit n).heap.rings.toList reachableList =
      (m.heap.rings.toList reachableList).erase n ++ [n] := by
  have hlt : n < m.heap.rings.nodes.size := by
    rw [he.inv.size_nodes, he.frame.size_nodes]
    exact Heap.lt_size_of_isAllocated hn
  have hreach : reachableList < m.heap.rings.sentinels.size := by
    rw [he.inv.size_sentinels]
    decide
  rw [visit_of_not_isMarked hmark]
  show (m.heap.rings.pushBack reachableList n).toList reachableList = _
  rw [he.inv.rings.toList_pushBack hlt hreach, if_pos rfl]

/-- So it is on that list then, besides what was on it before. -/
theorem Explores.mem_reachable_visit (he : Explores law w h Q ns m) (hn : h.isAllocated n = true)
    (hmark : m.isMarked n = false) {k : NodeId} :
    k ∈ (m.visit n).heap.rings.toList reachableList ↔
      k ∈ m.heap.rings.toList reachableList ∨ k = n := by
  rw [he.toList_reachable_visit hn hmark, List.mem_append, List.mem_singleton]
  by_cases hkn : k = n
  · simp [hkn]
  · rw [List.mem_erase_of_ne hkn]

/-- A node that is visited for the first time is taken off the live list. -/
theorem Explores.mem_live_visit (he : Explores law w h Q ns m) (hn : h.isAllocated n = true)
    (hmark : m.isMarked n = false) {k : NodeId} :
    k ∈ (m.visit n).heap.rings.toList liveList ↔
      k ∈ m.heap.rings.toList liveList ∧ k ≠ n := by
  have hlt : n < m.heap.rings.nodes.size := by
    rw [he.inv.size_nodes, he.frame.size_nodes]
    exact Heap.lt_size_of_isAllocated hn
  have hreach : reachableList < m.heap.rings.sentinels.size := by
    rw [he.inv.size_sentinels]
    decide
  rw [visit_of_not_isMarked hmark]
  show k ∈ (m.heap.rings.pushBack reachableList n).toList liveList ↔ _
  rw [he.inv.rings.toList_pushBack hlt hreach, if_neg (by decide),
    (he.inv.rings.nodup liveList).mem_erase_iff, and_comm]

/-- Visiting a node of the scope marks it, if it is not marked yet. -/
theorem Explores.visit (he : Explores law w h Q ns m) (hn : Q n)
    (hallocated : h.isAllocated n = true) :
    Explores law w h Q ns (m.visit n) ∧ Advances m (m.visit n) ∧
      (m.visit n).isMarked n = true := by
  have ha : m.heap.isAllocated n = true := by
    rw [he.frame.isAllocated]
    exact hallocated
  have hgrow : ∀ k, m.isMarked k = true → (m.visit n).isMarked k = true := fun k hk =>
    (isMarked_visit ha).2 (.inl hk)
  refine and_assoc.1 ⟨?_, (isMarked_visit ha).2 (.inr rfl)⟩
  -- A node that is marked already is passed over; otherwise it goes on the stack and to the
  -- reachable list.
  cases hmark : m.isMarked n with
  | true =>
    rw [visit_of_isMarked hmark]
    exact ⟨he, .refl m⟩
  | false =>
    obtain ⟨hnew, hfound⟩ := he.found_visit hallocated hmark
    have hmem : ∀ k, k ∈ found h (m.visit n) ↔ k = n ∨ k ∈ found h m := fun k => by
      rw [hfound, Finset.mem_insert]
    have hvisit := visit_of_not_isMarked hmark
    have hstack : (m.visit n).stack = n :: m.stack := by rw [hvisit]
    have hcount : (m.visit n).count = m.count + 1 := by rw [hvisit]
    have hheap : (m.visit n).heap = m.heap.paint n := by rw [hvisit]
    refine ⟨?_, hgrow, ?_⟩
    · exact
        { inv := by
            rw [hheap]
            exact he.inv.paint he.unswept ha
          unswept := he.unswept
          frame := by
            rw [hheap]
            exact he.frame.trans (Heap.repainted_paint ha)
          grown := fun k hk => hgrow k (he.grown k hk)
          stacked := fun k hk => by
            rw [hstack] at hk
            exact (hmem k).2 ((List.mem_cons.1 hk).imp_right (he.stacked k))
          closed := fun k hk hs hns j hj => by
            rw [hstack, List.mem_cons, not_or] at hs
            exact hgrow j (he.closed k (((hmem k).1 hk).resolve_left hs.1) hs.2 hns j hj)
          sound := fun k hk => by
            obtain rfl | hk := (hmem k).1 hk
            · exact hn
            · exact he.sound k hk
          listed := fun k => by
            rw [he.mem_reachable_visit hallocated hmark, he.listed, hmem, or_assoc,
              or_comm (b := k = n)]
          live := fun k => by
            rw [he.mem_live_visit hallocated hmark, he.live, hmem, not_or, and_assoc,
              and_comm (b := k ≠ n)]
          count := by
            rw [hfound, Finset.card_insert_of_notMem hnew, hcount, he.count] }
    · rw [hstack, hcount, List.length_cons]
      omega

/-- Visiting nodes of the scope marks them all. -/
theorem Explores.foldl_visit (hq : Scope h Q) (he : Explores law w h Q ns m) {ks : List NodeId}
    (hks : ∀ k ∈ ks, Q k) :
    Explores law w h Q ns (ks.foldl Marking.visit m) ∧ Advances m (ks.foldl Marking.visit m) ∧
      ∀ k ∈ ks, (ks.foldl Marking.visit m).isMarked k = true := by
  induction ks generalizing m with
  | nil => exact ⟨he, .refl m, fun k hk => absurd hk List.not_mem_nil⟩
  | cons k ks ih =>
    have hk := hks k List.mem_cons_self
    obtain ⟨he₁, ha₁, hmark₁⟩ := he.visit hk (hq.allocated k hk)
    obtain ⟨he₂, ha₂, hmark₂⟩ := ih he₁ fun j hj => hks j (List.mem_cons_of_mem k hj)
    refine ⟨he₂, ha₁.trans ha₂, fun j hj => ?_⟩
    obtain rfl | hj := List.mem_cons.1 hj
    · exact ha₂.marked j hmark₁
    · exact hmark₂ j hj

/-- A step visits the edges of the node on top of the stack. -/
theorem step_eq {rest : List NodeId} (hs : m.stack = n :: rest) :
    m.step = (traced m.heap n).1.foldl Marking.visit
      { m with heap := logTrace m.heap (traced m.heap n).2, stack := rest } := by
  unfold Marking.step
  rw [hs]

/-- What tracing a node has to say changes the events only. -/
theorem exists_logTrace (h : Heap) (message : Option (Level × String)) :
    ∃ events, logTrace h message = { h with events } := by
  cases message with
  | none => exact ⟨h.events, rfl⟩
  | some message => exact ⟨_, rfl⟩

/-- A node may be taken from the stack when its edges are about to be visited. -/
theorem Explores.pop (he : Explores law w h Q [] m) {rest : List NodeId} (hs : m.stack = n :: rest)
    (message : Option (Level × String)) :
    Explores law w h Q [n] { m with heap := logTrace m.heap message, stack := rest } := by
  obtain ⟨events, hlog⟩ := exists_logTrace m.heap message
  rw [hlog]
  exact
    { inv := { he.inv with }
      unswept := he.unswept
      frame := he.frame.trans
        { restamped := ⟨rfl, rfl⟩, queue := rfl, counts := fun _ => rfl, flags := fun _ _ _ => rfl }
      grown := he.grown
      stacked := fun k hk => he.stacked k (by rw [hs]; exact List.mem_cons_of_mem n hk)
      closed := fun k hk hrest hkn => he.closed k hk
        (by rw [hs, List.mem_cons]; exact fun hks => hks.elim (by simpa using hkn) hrest) (by simp)
      sound := he.sound
      listed := he.listed
      live := he.live
      count := he.count }

/-- The edges of a node on top of the stack do not leave the scope. -/
theorem Explores.traced_top (hq : Scope h Q) (he : Explores law w h Q [] m) {rest : List NodeId}
    (hs : m.stack = n :: rest) : ∀ k ∈ (traced m.heap n).1, Q k := by
  intro k hk
  have hn : n ∈ found h m := he.stacked n (by simp [hs])
  rw [he.frame.traced] at hk
  exact hq.edges n (he.sound n hn) (mem_found.1 hn).2.2 k hk

/-- A step takes one node from the stack and marks where its edges lead. -/
theorem Explores.step (hq : Scope h Q) (he : Explores law w h Q [] m) {rest : List NodeId}
    (hs : m.stack = n :: rest) :
    Explores law w h Q [] m.step ∧ (∀ k, m.isMarked k = true → m.step.isMarked k = true) ∧
      m.step.stack.length + 1 + m.count = m.stack.length + m.step.count := by
  obtain ⟨he', ha, hmark⟩ := (he.pop hs _).foldl_visit hq (he.traced_top hq hs)
  rw [← step_eq hs] at he' ha hmark
  -- Taking the node off and logging what tracing it says marked nothing.
  have hgrown : ∀ k, m.isMarked k = true → m.step.isMarked k = true := fun k hk => by
    refine ha.marked k ?_
    obtain ⟨events, hlog⟩ := exists_logTrace m.heap (traced m.heap n).2
    rw [hlog]
    exact hk
  refine ⟨{ he' with closed := fun k hk hks _ j hj => ?_ }, hgrown, ?_⟩
  · by_cases hkn : k = n
    · subst hkn
      rw [← he.frame.traced] at hj
      exact hmark j hj
    · exact he'.closed k hk hks (by simpa using hkn) j hj
  · have hbalance : m.step.stack.length + m.count = rest.length + m.step.count := ha.balance
    rw [hs, List.length_cons]
    omega

/-- Draining the stack empties it. -/
theorem Explores.drain (hq : Scope h Q) (he : Explores law w h Q [] m) (fuel : Nat)
    (hfuel : h.nodes.size - m.count + m.stack.length < fuel) :
    Explores law w h Q [] (m.drain fuel) ∧ (m.drain fuel).stack = [] ∧
      ∀ k, m.isMarked k = true → (m.drain fuel).isMarked k = true := by
  induction fuel generalizing m with
  | zero => exact absurd hfuel (Nat.not_lt_zero _)
  | succ fuel ih =>
    unfold Marking.drain
    cases hs : m.stack with
    | nil => exact ⟨he, hs, fun k hk => hk⟩
    | cons n rest =>
      obtain ⟨he', hmono, hbalance⟩ := he.step hq hs
      have hle := he'.count_le
      have hle' := he.count_le
      obtain ⟨he'', hstack, hmono'⟩ := ih he' (by omega)
      exact ⟨he'', hstack, fun k hk => hmono' k (hmono k hk)⟩

/-- What holds while nothing is left to be visited. -/
structure Explored (law : Law) (w : Juncture) (h : Heap) (Q : NodeId → Prop) (m : Marking) : Prop
    extends Explores law w h Q [] m where
  stack : m.stack = []

/-- Everything that is traced of a node that has been marked just now is marked. -/
theorem Explored.traced (he : Explored law w h Q m) (hn : n ∈ found h m) :
    ∀ k ∈ (Collector.traced h n).1, m.isMarked k = true :=
  he.closed n hn (by simp [he.stack]) (by simp)

/-- What has not been marked just now reads as it did when the cycle was flipped. -/
theorem Explored.lags {kept : Option (List (NodeId × Bool))} (he : Explored law w h.flip Q m) :
    m.heap.Lags { w with guard := some .full, kept } := by
  intro l hl n _ hn hout
  rw [Juncture.markedList_of_full rfl, Option.map_eq_some_iff] at hl
  obtain ⟨_, -, rfl⟩ := hl
  rw [he.frame.isAllocated] at hn
  have hlast : n ∈ Flip.lastUnmarked m.heap.flips ↔ (start h.flip).isMarked n = false := by
    rw [he.frame.flips]
    exact Heap.mem_unmarked.trans (and_iff_right hn)
  rw [hlast]
  show m.isMarked n = false ↔ _
  -- Marks are set only, and what has been marked just now is on the reachable list.
  constructor
  · intro hmark
    by_contra hstart
    rw [he.grown n (Bool.eq_true_of_not_eq_false hstart)] at hmark
    cases hmark
  · intro hstart
    by_contra hmark
    have hfound := (he.marked (Bool.eq_true_of_not_eq_false hmark)).resolve_right
      (by simp [hstart])
    exact hout ((he.listed n).2 (.inr hfound))

/-- Marking from a node of the scope marks it, and leaves nothing to be visited. -/
theorem Explored.reach (hq : Scope h Q) (he : Explored law w h Q m) (hn : Q n) :
    Explored law w h Q (m.reach n) ∧ (m.reach n).isMarked n = true ∧
      ∀ k, m.isMarked k = true → (m.reach n).isMarked k = true := by
  obtain ⟨he', ha, hmark⟩ := he.visit hn (hq.allocated n hn)
  have hbalance := ha.balance
  have hle := he.count_le
  have hle' := he'.count_le
  have hsize := he.frame.size_nodes
  rw [he.stack, List.length_nil] at hbalance
  obtain ⟨he'', hstack, hmono⟩ := he'.drain hq (m.heap.nodes.size + 1) (by omega)
  exact ⟨⟨he'', hstack⟩, hmono n hmark, fun k hk => hmono k (ha.marked k hk)⟩

/-- Marking from nodes of the scope marks them all. -/
theorem Explored.foldl_reach (hq : Scope h Q) (he : Explored law w h Q m) {ks : List NodeId}
    (hks : ∀ k ∈ ks, Q k) :
    Explored law w h Q (ks.foldl Marking.reach m) ∧
      (∀ k ∈ ks, (ks.foldl Marking.reach m).isMarked k = true) ∧
      ∀ k, m.isMarked k = true → (ks.foldl Marking.reach m).isMarked k = true := by
  induction ks generalizing m with
  | nil => exact ⟨he, fun k hk => absurd hk List.not_mem_nil, fun _ hk => hk⟩
  | cons k ks ih =>
    obtain ⟨he₁, hmark₁, hmono₁⟩ := he.reach hq (hks k List.mem_cons_self)
    obtain ⟨he₂, hmark₂, hmono₂⟩ := ih he₁ fun j hj => hks j (List.mem_cons_of_mem k hj)
    refine ⟨he₂, fun j hj => ?_, fun j hj => hmono₂ j (hmono₁ j hj)⟩
    obtain rfl | hj := List.mem_cons.1 hj
    · exact hmono₂ j hmark₁
    · exact hmark₂ j hj

/-! ## The weak table -/

/-- A weak entry is resolved once its key is marked and its value with it. -/
structure Resolved (m : Marking) (x : Nat × NodeId × Option NodeId) : Prop where
  key : m.isMarked x.2.1 = true
  value : ∀ v, x.2.2 = some v → m.isMarked v = true

/-- The values of the entries may be marked once their keys are. -/
def Follows (h : Heap) (Q : NodeId → Prop) (entries : List (Nat × NodeId × Option NodeId)) : Prop :=
  ∀ x ∈ entries, ∀ v, x.2.2 = some v → Q x.2.1 ∨ (start h).isMarked x.2.1 = true → Q v

/-- A pass over weak entries resolves those it does not leave. If it leaves all of them it has done
nothing, and no key is marked. -/
theorem Explored.weakPass (hq : Scope h Q) (he : Explored law w h Q m)
    {entries : List (Nat × NodeId × Option NodeId)} (hentries : Follows h Q entries) :
    Explored law w h Q (m.weakPass entries).1 ∧
      (∀ k, m.isMarked k = true → (m.weakPass entries).1.isMarked k = true) ∧
      (m.weakPass entries).2.Sublist entries ∧
      (∀ x ∈ entries, x ∈ (m.weakPass entries).2 ∨ Resolved (m.weakPass entries).1 x) ∧
      ((m.weakPass entries).2.length = entries.length →
        (m.weakPass entries).1 = m ∧ ∀ x ∈ entries, m.isMarked x.2.1 = false) := by
  induction entries generalizing m with
  | nil =>
    exact ⟨he, fun _ hk => hk, .slnil, fun _ hx => absurd hx List.not_mem_nil,
      fun _ => ⟨rfl, fun _ hx => absurd hx List.not_mem_nil⟩⟩
  | cons x rest ih =>
    obtain ⟨slot, key, value⟩ := x
    have hrest : Follows h Q rest := fun y hy => hentries y (List.mem_cons_of_mem _ hy)
    unfold Marking.weakPass
    cases hkey : m.isMarked key with
    | false =>
      obtain ⟨he', hmono, hsub, hres, hlen⟩ := ih he hrest
      refine ⟨he', hmono, hsub.cons_cons _, fun y hy => ?_, fun hall => ?_⟩
      · obtain rfl | hy := List.mem_cons.1 hy
        · exact .inl List.mem_cons_self
        · exact (hres y hy).imp_left (List.mem_cons_of_mem _)
      · obtain ⟨hsame, hkeys⟩ := hlen (Nat.succ.inj hall)
        refine ⟨hsame, fun y hy => ?_⟩
        obtain rfl | hy := List.mem_cons.1 hy
        · exact hkey
        · exact hkeys y hy
    | true =>
      have hscope : Q key ∨ (start h).isMarked key = true :=
        (he.marked hkey).imp_left (he.sound key)
      -- The value is marked before the rest of the entries are gone through.
      have hvalue : Explored law w h Q (value.elim m m.reach) ∧
          (∀ v, value = some v → (value.elim m m.reach).isMarked v = true) ∧
          ∀ k, m.isMarked k = true → (value.elim m m.reach).isMarked k = true := by
        cases hv : value with
        | none => exact ⟨he, fun _ hv' => (Option.some_ne_none _ hv'.symm).elim, fun _ hk => hk⟩
        | some v =>
          have hQ := hentries _ List.mem_cons_self v hv hscope
          obtain ⟨he', hmark, hmono⟩ := he.reach hq hQ
          refine ⟨he', fun v' hv' => ?_, hmono⟩
          cases hv'
          exact hmark
      obtain ⟨he₁, hv₁, hmono₁⟩ := hvalue
      obtain ⟨he', hmono, hsub, hres, -⟩ := ih he₁ hrest
      refine ⟨he', fun k hk => hmono k (hmono₁ k hk), hsub.cons _, fun y hy => ?_, fun hall => ?_⟩
      · obtain rfl | hy := List.mem_cons.1 hy
        · exact .inr ⟨hmono key (hmono₁ key hkey), fun v hv => hmono v (hv₁ v hv)⟩
        · exact hres y hy
      · have hle := hsub.length_le
        rw [if_pos rfl, List.length_cons] at hall
        omega

/-- Going through weak entries until none is resolved any more leaves those whose key is not
marked. -/
theorem Explored.weakClosure (hq : Scope h Q) (he : Explored law w h Q m) {fuel : Nat}
    {entries : List (Nat × NodeId × Option NodeId)} (hentries : Follows h Q entries)
    (hfuel : entries.length < fuel) :
    Explored law w h Q (m.weakClosure fuel entries).1 ∧
      (∀ k, m.isMarked k = true → (m.weakClosure fuel entries).1.isMarked k = true) ∧
      (m.weakClosure fuel entries).2.Sublist entries ∧
      (∀ x ∈ entries,
        x ∈ (m.weakClosure fuel entries).2 ∨ Resolved (m.weakClosure fuel entries).1 x) ∧
      ∀ x ∈ (m.weakClosure fuel entries).2,
        (m.weakClosure fuel entries).1.isMarked x.2.1 = false := by
  -- Every pass but the last resolves an entry, so that as many passes as there are entries suffice.
  induction fuel generalizing m entries with
  | zero => exact absurd hfuel (Nat.not_lt_zero _)
  | succ fuel ih =>
    obtain ⟨he₁, hmono₁, hsub₁, hres₁, hlen₁⟩ := he.weakPass hq hentries
    have hle := hsub₁.length_le
    have hclosure : m.weakClosure (fuel + 1) entries =
        if (m.weakPass entries).2.length = entries.length then m.weakPass entries
        else (m.weakPass entries).1.weakClosure fuel (m.weakPass entries).2 := rfl
    rw [hclosure]
    split_ifs with hlen
    · obtain ⟨hsame, hkeys⟩ := hlen₁ hlen
      refine ⟨he₁, hmono₁, hsub₁, hres₁, fun x hx => ?_⟩
      rw [hsame]
      exact hkeys x (hsub₁.subset hx)
    · obtain ⟨he₂, hmono₂, hsub₂, hres₂, hkeys₂⟩ :=
        ih he₁ (fun x hx => hentries x (hsub₁.subset hx)) (by omega)
      refine ⟨he₂, fun k hk => hmono₂ k (hmono₁ k hk), hsub₂.trans hsub₁, fun x hx => ?_, hkeys₂⟩
      obtain hx | hx := hres₁ x hx
      · exact hres₂ x hx
      · exact .inr ⟨hmono₂ _ hx.key, fun v hv => hmono₂ v (hx.value v hv)⟩

/-- The weak entries that marking goes through are those that have a key. -/
theorem mem_keyed {slot : Nat} {key : NodeId} {value : Option NodeId} :
    (slot, key, value) ∈ keyed h ↔
      ∃ e, h.roots.weak.get? slot = some e ∧ e.key = some key ∧ e.value = value := by
  unfold keyed
  simp only [List.mem_filterMap, Prod.exists, SlotTable.mem_entries, Option.map_eq_some_iff,
    Prod.mk.injEq]
  constructor
  · rintro ⟨s, e, hs, k, hkey, rfl, rfl, rfl⟩
    exact ⟨e, hs, hkey, rfl⟩
  · rintro ⟨e, hs, hkey, rfl⟩
    exact ⟨slot, e, hs, key, hkey, rfl, rfl, rfl⟩

/-! ## A whole marking -/

/-- What marking has found out: the roots are marked and what was marked to begin with, a value is
marked if its key is, and the slots are given of the entries whose key is not. -/
structure Closed (h : Heap) (m : Marking) (dead : List Nat) : Prop where
  start : ∀ n, (start h.flip).isMarked n = true → m.isMarked n = true
  roots : ∀ n ∈ h.rootNodes, m.isMarked n = true
  weak : ∀ e ∈ h.roots.weak.toList, ∀ key value, e.key = some key → e.value = some value →
    m.isMarked key = true → m.isMarked value = true
  dead : ∀ slot, slot ∈ dead ↔
    ∃ e key, h.roots.weak.get? slot = some e ∧ e.key = some key ∧ m.isMarked key = false

/-- Nothing has been marked yet when marking begins. -/
theorem found_start : found h (start h) = ∅ := by
  refine Finset.filter_eq_empty_iff.2 fun n _ hn => ?_
  rw [hn.1] at hn
  cases hn.2

/-- When marking begins nothing is left to be visited. -/
theorem explored_start (inv : Invariant law { w with guard := some .full } h)
    (hkept : w.kept = none) (hempty : w.scarred = false → h.rings.toList reachableList = [])
    (hturns : w.scarred = false → h.Turns) :
    Explored law w h.flip Q (start h.flip) where
  inv := inv.flip hkept hempty hturns
  unswept := hkept
  frame := .refl _
  grown := fun _ hn => hn
  stacked := fun n hn => absurd hn List.not_mem_nil
  closed := fun n hn => by
    rw [found_start] at hn
    exact absurd hn (Finset.notMem_empty n)
  sound := fun n hn => by
    rw [found_start] at hn
    exact absurd hn (Finset.notMem_empty n)
  listed := fun n => by
    rw [found_start, or_iff_left (Finset.notMem_empty n)]
    rfl
  live := fun n => by
    rw [found_start, and_iff_left (Finset.notMem_empty n)]
    rfl
  count := by
    rw [found_start, Finset.card_empty]
    rfl
  stack := rfl

/-- Marking explores the scope from the roots and through the weak table. -/
theorem run_spec (inv : Invariant law { w with guard := some .full } h) (hkept : w.kept = none)
    (hempty : w.scarred = false → h.rings.toList reachableList = [])
    (hturns : w.scarred = false → h.Turns) (hq : Scope h.flip Q) :
    Explored law w h.flip Q (run h).1 ∧ Closed h (run h).1 (run h).2 := by
  have hentries : Follows h.flip Q (keyed h) := by
    rintro ⟨slot, key, value⟩ hx v hv hkey
    obtain ⟨e, hslot, hekey, hevalue⟩ := mem_keyed.1 hx
    exact hq.weak e (SlotTable.mem_toList.2 ⟨slot, hslot⟩) key v hekey (hevalue.trans hv) hkey
  obtain ⟨he₁, hroots, hmono₁⟩ :=
    (explored_start (Q := Q) inv hkept hempty hturns).foldl_reach hq hq.roots
  obtain ⟨he₂, hmono, hsub, hres, hkeys⟩ :=
    he₁.weakClosure hq hentries (Nat.lt_succ_self (keyed h).length)
  -- Naming the result of the closure keeps it from being unfolded.
  have hrun : run h =
      (((h.flip.rootNodes.foldl Marking.reach (start h.flip)).weakClosure
        ((keyed h).length + 1) (keyed h)).1,
      ((h.flip.rootNodes.foldl Marking.reach (start h.flip)).weakClosure
        ((keyed h).length + 1) (keyed h)).2.map fun x => x.1) := rfl
  rw [hrun]
  generalize (h.flip.rootNodes.foldl Marking.reach (start h.flip)).weakClosure
    ((keyed h).length + 1) (keyed h) = c at he₂ hmono hsub hres hkeys
  refine ⟨he₂, fun n hn => hmono n (hmono₁ n hn), fun n hn => hmono n (hroots n hn),
    fun e he key value hkey hvalue hmark => ?_, fun slot => ?_⟩
  · obtain ⟨slot, hslot⟩ := SlotTable.mem_toList.1 he
    obtain hx | hx := hres (slot, key, some value) (mem_keyed.2 ⟨e, hslot, hkey, hvalue⟩)
    · rw [hkeys _ hx] at hmark
      cases hmark
    · exact hx.value value rfl
  · show slot ∈ c.2.map _ ↔ _
    rw [List.mem_map]
    constructor
    · rintro ⟨⟨s, key, value⟩, hx, hs⟩
      obtain ⟨e, hslot, hkey, -⟩ := mem_keyed.1 (hsub.subset hx)
      obtain rfl : s = slot := hs
      exact ⟨e, key, hslot, hkey, hkeys (s, key, value) hx⟩
    · rintro ⟨e, key, hslot, hkey, hmark⟩
      have hx : (slot, key, e.value) ∈ keyed h := mem_keyed.2 ⟨e, hslot, hkey, rfl⟩
      refine ⟨(slot, key, e.value), (hres _ hx).resolve_right fun hres => ?_, rfl⟩
      rw [hres.key] at hmark
      cases hmark

/-! ## What marking leaves as it was -/

/-- A reading of the heap that shows neither marks and lists nor what is logged. -/
structure Overlooks {γ : Type} (f : Heap → γ) : Prop where
  paint : ∀ h n, f (h.paint n) = f h
  log : ∀ (h : Heap) level text, f (h.log level text) = f h
  flip : ∀ h, f h.flip = f h

namespace Overlooks

variable {γ : Type} {f : Heap → γ}

theorem visit (hf : Overlooks f) (m : Marking) (n : NodeId) : f (m.visit n).heap = f m.heap := by
  unfold Marking.visit
  split
  · rfl
  · exact hf.paint m.heap n

theorem step (hf : Overlooks f) (m : Marking) : f m.step.heap = f m.heap := by
  have hvisits : ∀ (ns : List NodeId) (m : Marking),
      f (ns.foldl Marking.visit m).heap = f m.heap := by
    intro ns
    induction ns with
    | nil => exact fun _ => rfl
    | cons n ns ih => exact fun m => (ih _).trans (hf.visit m n)
  unfold Marking.step
  split
  · rfl
  · have hlog : ∀ message, f (logTrace m.heap message) = f m.heap := by
      rintro (_ | ⟨level, text⟩)
      · rfl
      · exact hf.log m.heap level text
    exact (hvisits _ _).trans (hlog _)

theorem reach (hf : Overlooks f) (m : Marking) (n : NodeId) : f (m.reach n).heap = f m.heap := by
  have hdrain : ∀ (fuel : Nat) (m : Marking), f (m.drain fuel).heap = f m.heap := by
    intro fuel
    induction fuel with
    | zero => exact fun _ => rfl
    | succ fuel ih =>
      intro m
      unfold Marking.drain
      split
      · rfl
      · exact (ih _).trans (hf.step m)
  exact (hdrain _ _).trans (hf.visit m n)

theorem weakPass (hf : Overlooks f) (entries : List (Nat × NodeId × Option NodeId)) (m : Marking) :
    f (m.weakPass entries).1.heap = f m.heap := by
  induction entries generalizing m with
  | nil => rfl
  | cons entry rest ih =>
    obtain ⟨slot, key, value⟩ := entry
    unfold Marking.weakPass
    split
    · cases value with
      | none => exact ih _
      | some value => exact (ih _).trans (hf.reach m value)
    · exact ih _

theorem weakClosure (hf : Overlooks f) (fuel : Nat) (m : Marking)
    (entries : List (Nat × NodeId × Option NodeId)) :
    f (m.weakClosure fuel entries).1.heap = f m.heap := by
  induction fuel generalizing m entries with
  | zero => rfl
  | succ fuel ih =>
    unfold Marking.weakClosure
    dsimp only
    split
    · exact hf.weakPass entries m
    · exact (ih _ _).trans (hf.weakPass entries m)

/-- Marking changes nothing that such a reading shows. -/
theorem run (hf : Overlooks f) (h : Heap) : f (Marking.run h).1.heap = f h := by
  have hroots : ∀ (ns : List NodeId) (m : Marking),
      f (ns.foldl Marking.reach m).heap = f m.heap := by
    intro ns
    induction ns with
    | nil => exact fun _ => rfl
    | cons n ns ih => exact fun m => (ih _).trans (hf.reach m n)
  unfold Marking.run
  exact ((hf.weakClosure _ _ _).trans (hroots _ _)).trans (hf.flip h)

end Overlooks

end Collector.Marking

/-! ## What has storage -/

/-- What is traced of a node are edges of its payload. -/
theorem mem_traced {m : NodeId} (hm : m ∈ (traced h n).1) :
    ∃ p, h.payload? n = some p ∧ m ∈ p.edges := by
  unfold traced at hm
  split_ifs at hm
  · cases hm
  · cases hp : h.payload? n with
    | none =>
      rw [hp] at hm
      cases hm
    | some p =>
      rw [hp] at hm
      refine ⟨p, rfl, ?_⟩
      dsimp only at hm
      split at hm
      · cases hm
      · exact hm

/-- Every root has storage. -/
theorem Invariant.isAllocated_of_mem_rootNodes (inv : Invariant law w h) (hn : n ∈ h.rootNodes) :
    h.isAllocated n = true := by
  unfold Heap.rootNodes at hn
  obtain hn | hn := List.mem_append.1 hn
  · obtain hn | hn := List.mem_append.1 hn
    · refine inv.grounded n ?_
      have hpos : 0 < h.rootHolders n := List.count_pos_iff.2 hn
      unfold Heap.debts Heap.holders
      omega
    · exact inv.stacked n (List.mem_append_left _ hn)
  · unfold Heap.externalRoots at hn
    obtain ⟨s, -, hs⟩ := List.mem_flatMap.1 hn
    split_ifs at hs
    · exact (List.mem_filter.1 hs).2
    · cases hs

/-- An edge in a payload is a reference. -/
theorem Heap.payloadHolders_pos {m : NodeId} {p : Payload} (hp : h.payload? n = some p)
    (hm : m ∈ p.edges) : 0 < h.payloadHolders m := by
  have hedge : m ∈ h.edges n := by
    rw [h.edges_eq, hp]
    exact List.mem_append_left _ hm
  exact Nat.lt_of_lt_of_le (List.count_pos_iff.2 hedge) (h.count_edges_le n m)

/-- The target of an edge has storage. -/
theorem Invariant.isAllocated_of_mem_edges (inv : Invariant law w h) {m : NodeId} {p : Payload}
    (hp : h.payload? n = some p) (hm : m ∈ p.edges) : h.isAllocated m = true := by
  refine inv.grounded m ?_
  have hpos := Heap.payloadHolders_pos hp hm
  unfold Heap.debts Heap.holders
  omega

/-- The value of a weak entry has storage. -/
theorem Invariant.isAllocated_of_value (inv : Invariant law w h) {e : WeakEntry}
    (he : e ∈ h.roots.weak.toList) (hn : e.value = some n) : h.isAllocated n = true := by
  refine inv.grounded n ?_
  have hpos := Heap.weakHolders_pos he hn
  unfold Heap.debts Heap.holders
  omega

/-- The nodes that have storage are a scope. -/
theorem Collector.Marking.scope_isAllocated (inv : Invariant law w h) :
    Scope h.flip (h.isAllocated · = true) where
  allocated := fun n hn => hn
  roots := fun n hn => inv.isAllocated_of_mem_rootNodes hn
  edges := fun n _ _ m hm => by
    obtain ⟨p, hp, hm⟩ := mem_traced hm
    exact inv.isAllocated_of_mem_edges hp hm
  weak := fun e he key value _ hvalue _ => inv.isAllocated_of_value he hvalue

end HybridHeap
