import HybridHeap.Proofs.Links
import Mathlib.Data.List.Basic

/-!
# Rings refine sequences

What a caller means by lists of nodes: each is a sequence, a node that is put on one leaves any
other, and a list that was dropped is gone. A caller that only changes lists that are there, and
splices no list into itself, finds after any number of changes that walking the links of a list
forwards yields its sequence and walking them backwards yields the reverse. The step lemma has one
case for each change, and a run is a fold of steps.
-/

namespace HybridHeap.Rings

variable {r : Rings} {x y : Link} {l : ListId} {ns : List NodeId} {s : ListId → List NodeId}

/-! ## Dropping a list -/

/-- Unlinking nodes one after the other removes them from whatever lists they are on. -/
theorem Holds.foldl_unlink (hr : r.Holds s) (ns : List NodeId) :
    (ns.foldl (fun r n => r.unlink (.node n)) r).Holds fun k => (s k).diff ns := by
  induction ns generalizing r s with
  | nil => simpa using hr
  | cons n ns ih => simpa using ih (hr.unlink n)

/-- Dropping a list takes its nodes off it and leaves the others as they are. -/
theorem Holds.clear (hr : r.Holds s) (l : ListId) :
    (r.clear l).Holds fun k => if k = l then [] else s k := by
  have hdiff : (fun k => (s k).diff (s l)) = fun k => if k = l then [] else s k := by
    funext k
    rw [(hr.nodup k).sdiff_eq_filter]
    split_ifs with hk
    · subst hk
      simp
    · refine List.filter_eq_self.2 fun n hn => ?_
      simpa using fun hnl => hk (hr.disjoint hn hnl)
  unfold Rings.clear
  rw [hr.toList_eq, ← hdiff]
  exact hr.foldl_unlink (s l)

/-- Dropping a list amounts to unlinking whatever is in front until nothing is. -/
theorem Sound.clear_eq (hr : r.Sound) (hl : l < r.sentinels.size) :
    r.clear l = match r.front? l with
      | some n => (r.unlink (.node n)).clear l
      | none => r := by
  rw [hr.front?_eq hl]
  cases hs : r.toList l with
  | nil => simp [Rings.clear, hs]
  | cons n ns =>
    have hrest : (r.unlink (.node n)).toList l = ns := by
      rw [hr.toList_unlink, hs, List.erase_cons_head]
    simp [Rings.clear, hs, hrest]

@[simp] theorem size_foldl_unlink (r : Rings) (ns : List NodeId) :
    (ns.foldl (fun r n => r.unlink (.node n)) r).sentinels.size = r.sentinels.size ∧
      (ns.foldl (fun r n => r.unlink (.node n)) r).nodes.size = r.nodes.size := by
  induction ns generalizing r with
  | nil => exact ⟨rfl, rfl⟩
  | cons n ns ih => simpa using ih (r.unlink (.node n))

@[simp] theorem size_sentinels_clear (r : Rings) (l : ListId) :
    (r.clear l).sentinels.size = r.sentinels.size :=
  (size_foldl_unlink r _).1

@[simp] theorem size_nodes_clear (r : Rings) (l : ListId) :
    (r.clear l).nodes.size = r.nodes.size :=
  (size_foldl_unlink r _).2

/-! ## Sequences -/

/-- The lists as a caller thinks of them. -/
structure Sequences where
  /-- How many lists have been made. -/
  made : Nat
  /-- How many nodes there are. -/
  nodes : Nat
  /-- The nodes of each list that has been made and not been dropped. -/
  list? : ListId → Option (List NodeId)

/-- A change to the lists. -/
inductive Change where
  | newList
  | newNode
  | pushBack (l : ListId) (n : NodeId)
  | spliceBack (l source : ListId)
  | unlink (n : NodeId)
  | drop (l : ListId)

namespace Sequences

/-- No lists and no nodes. -/
def empty : Sequences := ⟨0, 0, fun _ => none⟩

/-- A node removed from whatever list it is on. -/
def remove (a : Sequences) (n : NodeId) : Sequences :=
  { a with list? := fun k => (a.list? k).map (·.erase n) }

/-- Nodes appended to a list. -/
def append (a : Sequences) (l : ListId) (ns : List NodeId) : Sequences :=
  { a with list? := fun k => (a.list? k).map fun ms => if k = l then ms ++ ns else ms }

/-- A list with these nodes, or none, whatever it was. -/
def put (a : Sequences) (l : ListId) (ns? : Option (List NodeId)) : Sequences :=
  { a with list? := fun k => if k = l then ns? else a.list? k }

/-- The lists after a change that makes sense: it changes lists and nodes that are there, and
splices between two lists. -/
def change? (a : Sequences) : Change → Option Sequences
  | .newList => some { a.put a.made (some []) with made := a.made + 1 }
  | .newNode => some { a with nodes := a.nodes + 1 }
  | .pushBack l n =>
    if (a.list? l).isSome ∧ n < a.nodes then some ((a.remove n).append l [n]) else none
  | .spliceBack l source =>
    if (a.list? l).isSome ∧ l ≠ source then
      (a.list? source).map fun ns => (a.append l ns).put source (some [])
    else none
  | .unlink n => if n < a.nodes then some (a.remove n) else none
  | .drop l => if (a.list? l).isSome then some (a.put l none) else none

/-- The lists after changes, if each makes sense when its turn comes. -/
def changeAll? (a : Sequences) (changes : List Change) : Option Sequences :=
  changes.foldlM change? a

/-- The nodes of a list; one that is not there has none. -/
def nodesOf (a : Sequences) (l : ListId) : List NodeId := (a.list? l).getD []

variable {a : Sequences} {n : NodeId} {l k : ListId} {ns : List NodeId}

@[simp] theorem made_remove : (a.remove n).made = a.made := rfl

@[simp] theorem nodes_remove : (a.remove n).nodes = a.nodes := rfl

@[simp] theorem isSome_remove : ((a.remove n).list? k).isSome = (a.list? k).isSome :=
  Option.isSome_map

@[simp] theorem made_append : (a.append l ns).made = a.made := rfl

@[simp] theorem nodes_append : (a.append l ns).nodes = a.nodes := rfl

@[simp] theorem isSome_append : ((a.append l ns).list? k).isSome = (a.list? k).isSome :=
  Option.isSome_map

@[simp] theorem made_put {ns? : Option (List NodeId)} : (a.put l ns?).made = a.made := rfl

@[simp] theorem nodes_put {ns? : Option (List NodeId)} : (a.put l ns?).nodes = a.nodes := rfl

theorem isSome_put {ns? : Option (List NodeId)} :
    ((a.put l ns?).list? k).isSome = if k = l then ns?.isSome else (a.list? k).isSome := by
  unfold put
  split_ifs with hk <;> simp [hk]

theorem nodesOf_eq (hl : a.list? l = some ns) : a.nodesOf l = ns := by
  simp [nodesOf, hl]

@[simp] theorem nodesOf_remove : (a.remove n).nodesOf k = (a.nodesOf k).erase n := by
  unfold nodesOf remove
  cases hk : a.list? k <;> simp [hk]

@[simp] theorem nodesOf_append (hl : (a.list? l).isSome) :
    (a.append l ns).nodesOf k = if k = l then a.nodesOf k ++ ns else a.nodesOf k := by
  unfold nodesOf append
  cases hk : a.list? k with
  | none =>
    have hkl : k ≠ l := by
      rintro rfl
      simp [hk] at hl
    simp [hk, hkl]
  | some ms => simp [hk]

@[simp] theorem nodesOf_put {ns? : Option (List NodeId)} :
    (a.put l ns?).nodesOf k = if k = l then ns?.getD [] else a.nodesOf k := by
  unfold nodesOf put
  split_ifs with hk <;> simp [hk]

end Sequences

/-- What a change does to the links. -/
def change (r : Rings) : Change → Rings
  | .newList => r.newList.2
  | .newNode => r.newNode
  | .pushBack l n => r.pushBack l n
  | .spliceBack l source => r.spliceBack l source
  | .unlink n => r.unlink (.node n)
  | .drop l => r.clear l

/-- The links after changes. -/
def changeAll (r : Rings) (changes : List Change) : Rings := changes.foldl change r

/-! ## Refinement -/

/-- The links are those of the sequences, over as many lists and nodes. -/
structure Threads (r : Rings) (a : Sequences) : Prop where
  holds : r.Holds a.nodesOf
  made : r.sentinels.size = a.made
  nodes : r.nodes.size = a.nodes
  known : ∀ l, (a.list? l).isSome → l < a.made

variable {a a' : Sequences} {changes : List Change}

/-- No links are those of no lists. -/
theorem threads_empty : Rings.empty.Threads .empty where
  holds := holds_empty
  made := rfl
  nodes := rfl
  known := by simp [Sequences.empty]

/-- Whatever the change, the links stay those of the sequences. -/
theorem Threads.change (hr : r.Threads a) {c : Change} (hc : a.change? c = some a') :
    (r.change c).Threads a' := by
  have hmade : ∀ {l}, (a.list? l).isSome → l < r.sentinels.size := fun hl =>
    hr.made ▸ hr.known _ hl
  cases c with
  | newList =>
    cases hc
    refine ⟨?_, by simp [Rings.change, newList, hr.made], hr.nodes, ?_⟩
    · -- The list that is made was not there, so it had no nodes before either.
      have hnew : a.nodesOf a.made = [] := by
        have hnone : a.list? a.made = none := by
          by_contra hsome
          exact Nat.lt_irrefl _ (hr.known _ (Option.isSome_iff_ne_none.2 hsome))
        simp [Sequences.nodesOf, hnone]
      have hnodes : (a.put a.made (some [])).nodesOf = a.nodesOf := by
        funext k
        rw [Sequences.nodesOf_put]
        split_ifs with hk
        · rw [hk, hnew, Option.getD_some]
        · rfl
      show r.newList.2.Holds (a.put a.made (some [])).nodesOf
      rw [hnodes]
      exact hr.holds.newList
    · intro k hk
      have hput : ((a.put a.made (some [])).list? k).isSome = true := hk
      rw [Sequences.isSome_put] at hput
      split_ifs at hput with hkm
      · exact hkm ▸ Nat.lt_succ_self _
      · exact Nat.lt_succ_of_lt (hr.known k hput)
  | newNode =>
    cases hc
    exact ⟨hr.holds.newNode, hr.made, by simp [Rings.change, newNode, hr.nodes], hr.known⟩
  | pushBack l n =>
    simp only [Sequences.change?, Option.ite_none_right_eq_some, Option.some.injEq] at hc
    obtain ⟨⟨hl, hn⟩, rfl⟩ := hc
    refine ⟨?_, by simp [Rings.change, hr.made], by simp [Rings.change, hr.nodes],
      by simpa using hr.known⟩
    have hnodes : ((a.remove n).append l [n]).nodesOf =
        fun k => if k = l then (a.nodesOf k).erase n ++ [n] else (a.nodesOf k).erase n := by
      funext k
      rw [Sequences.nodesOf_append (by simpa using hl), Sequences.nodesOf_remove]
    rw [hnodes]
    exact hr.holds.pushBack (hr.nodes ▸ hn) (hmade hl)
  | spliceBack l source =>
    simp only [Sequences.change?, Option.ite_none_right_eq_some, Option.map_eq_some_iff] at hc
    obtain ⟨⟨hl, hne⟩, ns, hns, rfl⟩ := hc
    refine ⟨?_, by simp [Rings.change, hr.made], by simp [Rings.change, hr.nodes], ?_⟩
    · have hnodes : ((a.append l ns).put source (some [])).nodesOf = fun k =>
          if k = source then [] else if k = l then a.nodesOf l ++ a.nodesOf source
            else a.nodesOf k := by
        funext k
        rw [Sequences.nodesOf_put, Sequences.nodesOf_append hl, Sequences.nodesOf_eq hns]
        split_ifs with hks hkl
        · rfl
        · rw [hkl]
        · rfl
      rw [hnodes]
      exact hr.holds.spliceBack (hmade hl) (hmade (by simp [hns])) hne
    · intro k hk
      rw [Sequences.isSome_put, Sequences.isSome_append] at hk
      refine hr.known k ?_
      split_ifs at hk with hks
      · simp [hks, hns]
      · exact hk
  | unlink n =>
    simp only [Sequences.change?, Option.ite_none_right_eq_some, Option.some.injEq] at hc
    obtain ⟨-, rfl⟩ := hc
    refine ⟨?_, by simp [Rings.change, hr.made], by simp [Rings.change, hr.nodes],
      by simpa using hr.known⟩
    have hnodes : (a.remove n).nodesOf = fun k => (a.nodesOf k).erase n :=
      funext fun _ => Sequences.nodesOf_remove
    rw [hnodes]
    exact hr.holds.unlink n
  | drop l =>
    simp only [Sequences.change?, Option.ite_none_right_eq_some, Option.some.injEq] at hc
    obtain ⟨-, rfl⟩ := hc
    refine ⟨?_, by simp [Rings.change, hr.made], by simp [Rings.change, hr.nodes], ?_⟩
    · have hnodes : (a.put l none).nodesOf = fun k => if k = l then [] else a.nodesOf k :=
        funext fun _ => Sequences.nodesOf_put
      rw [hnodes]
      exact hr.holds.clear l
    · intro k hk
      rw [Sequences.isSome_put] at hk
      refine hr.known k ?_
      split_ifs at hk with hkl
      · cases hk
      · exact hk

/-- Whatever the changes, the links stay those of the sequences. -/
theorem Threads.changeAll (hr : r.Threads a) (hc : a.changeAll? changes = some a') :
    (r.changeAll changes).Threads a' := by
  induction changes generalizing r a with
  | nil =>
    cases hc
    exact hr
  | cons c changes ih =>
    unfold Sequences.changeAll? at hc
    rw [List.foldlM_cons, Option.bind_eq_bind, Option.bind_eq_some_iff] at hc
    obtain ⟨a₁, hfirst, hrest⟩ := hc
    exact ih (hr.change hfirst) hrest

/-- The links of a table show these sequences to one who walks them. -/
structure Shows (r : Rings) (a : Sequences) : Prop where
  /-- No list has a node twice, and no node is on two lists. -/
  nodup : ∀ l ns, a.list? l = some ns → ns.Nodup
  disjoint : ∀ l k ns ms n, a.list? l = some ns → a.list? k = some ms → n ∈ ns → n ∈ ms → l = k
  /-- Both neighbours of every link point back at it. -/
  consistent : ∀ x, r.isConsistent x = true
  /-- Forwards from the sentinel of a list come its nodes and then the sentinel again. -/
  forwards : ∀ l ns, a.list? l = some ns → Path r.next (.sentinel l) ns (.sentinel l)
  /-- Backwards they come in reverse order. -/
  backwards : ∀ l ns, a.list? l = some ns → Path r.prev (.sentinel l) ns.reverse (.sentinel l)
  /-- What is yielded by iterating over a list. -/
  toList : ∀ l ns, a.list? l = some ns → r.toList l = ns
  /-- A node that is on no list points at itself. -/
  alone : ∀ n, (∀ l ns, a.list? l = some ns → n ∉ ns) →
    r.next (.node n) = .node n ∧ r.prev (.node n) = .node n
  /-- Nothing points at the sentinel of a list that is gone. -/
  gone : ∀ l x, a.list? l = none → r.next x = .sentinel l ∨ r.prev x = .sentinel l →
    x = .sentinel l

/-- Links that are those of sequences show them. -/
theorem Threads.shows (hr : r.Threads a) : r.Shows a := by
  obtain ⟨holds, hmade, -, hknown⟩ := hr
  have hpath : ∀ l ns, a.list? l = some ns → Path r.next (.sentinel l) ns (.sentinel l) := by
    intro l ns hl
    have hlt : l < r.sentinels.size := hmade ▸ hknown l (by simp [hl])
    simpa [Sequences.nodesOf_eq hl] using holds.path l hlt
  refine ⟨?_, ?_, ?_, hpath, ?_, ?_, ?_, ?_⟩
  · intro l ns hl
    simpa [Sequences.nodesOf_eq hl] using holds.nodup l
  · intro l k ns ms n hl hk hn hm
    refine holds.disjoint (n := n) ?_ ?_
    · rwa [Sequences.nodesOf_eq hl]
    · rwa [Sequences.nodesOf_eq hk]
  · intro x
    simp [isConsistent, holds.linked.prev_next x, holds.linked.next_prev x]
  · intro l ns hl
    exact (hpath l ns hl).reverse fun z _ => holds.linked.prev_next z
  · intro l ns hl
    rw [holds.toList_eq, Sequences.nodesOf_eq hl]
  · intro n hn
    have hself : r.next (.node n) = .node n := by
      refine holds.isolated n fun l hl => ?_
      cases hl? : a.list? l with
      | none => simp [Sequences.nodesOf, hl?] at hl
      | some ns =>
        rw [Sequences.nodesOf_eq hl?] at hl
        exact hn l ns hl? hl
    exact ⟨hself, holds.linked.prev_eq_iff.2 hself.symm⟩
  · intro l x hl hx
    -- The sentinel of a list that is gone points at itself, and what points at it comes back to it.
    have hself : r.next (.sentinel l) = .sentinel l := by
      by_cases hlt : l < r.sentinels.size
      · exact (holds.next_sentinel_eq_iff hlt).2 (by simp [Sequences.nodesOf, hl])
      · unfold next
        rw [ends_of_not_contains (x := .sentinel l) hlt]
    obtain hx | hx := hx
    · rw [holds.linked.next_eq_iff.1 hx]
      exact holds.linked.prev_eq_iff.2 hself.symm
    · rw [holds.linked.prev_eq_iff.1 hx, hself]

/-- From no lists and no nodes on, whatever lists and nodes are made and whatever is pushed,
spliced, unlinked and dropped, the links show the sequences that the caller means. -/
theorem changeAll_shows (hc : Sequences.empty.changeAll? changes = some a) :
    (Rings.empty.changeAll changes).Shows a :=
  (threads_empty.changeAll hc).shows

/-- Two lists and three nodes: a node that is at the back already is pushed there again, the only
node of a list moves to the other, a list is spliced into one without nodes, and in the end the
list that all nodes came from is dropped. -/
theorem changeAll_shows_tour :
    ∃ a, Sequences.empty.changeAll?
        [.newNode, .newNode, .newNode, .newList, .newList, .pushBack 0 0, .pushBack 0 1,
          .pushBack 0 1, .pushBack 1 2, .pushBack 0 2, .spliceBack 0 1, .unlink 1,
          .spliceBack 1 0, .pushBack 0 0, .pushBack 1 0, .drop 0] = some a ∧
      a.list? 0 = none ∧ a.list? 1 = some [2, 0] ∧
      (Rings.empty.changeAll
        [.newNode, .newNode, .newNode, .newList, .newList, .pushBack 0 0, .pushBack 0 1,
          .pushBack 0 1, .pushBack 1 2, .pushBack 0 2, .spliceBack 0 1, .unlink 1,
          .spliceBack 1 0, .pushBack 0 0, .pushBack 1 0, .drop 0]).Shows a :=
  ⟨_, rfl, rfl, rfl, changeAll_shows rfl⟩

end HybridHeap.Rings
