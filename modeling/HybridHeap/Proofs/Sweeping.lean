import HybridHeap.Proofs.Lifetimes
import HybridHeap.Proofs.Tracing

/-!
# What a full collection drops

A full collection keeps what it finds while it marks, and what it has found on the reachable list.
The sweep looks at no mark: it drops the payload of every node that it comes to on the live list,
where marking has left the nodes it has not found, and where every node is put that a destructor
allocates meanwhile. So a node that is born during the sweep loses its payload in it, also if a
root designates it by then, and so does a node to which all paths from the roots go through
borrowed payloads.

Marking passes by what looks marked already. As long as no destructor unwinds out of a sweep, that
is no node that has its payload. A sweep that is cut short leaves nodes that look marked when the
next collection begins, and that collection drops their payloads, reachable or not.
-/

namespace HybridHeap

open Collector Act

-- Unification would run marking where it only has to name it.
attribute [local irreducible] Collector.mark

variable {law : Law} {w : Juncture} {h h' : Heap} {n m : NodeId}

namespace Heap

/-- The node has storage, and no sweep has dropped its payload. -/
def Attached (h : Heap) (n : NodeId) : Prop := h.isAllocated n = true ∧ h.isDetached n = false

instance : Decidable (h.Attached n) := inferInstanceAs (Decidable (_ ∧ _))

/-- The node looks marked to a full collection that begins now. -/
def isStale (h : Heap) (n : NodeId) : Bool := (Marking.start h.flip).isMarked n

/-- What marking comes to: the roots, the edges that are traced of what it comes to, none of a
payload that is borrowed, and the values of weak entries whose key it has come to. It passes by a
node that looks marked already, so that nothing is traced of it, and takes it for a marked key. -/
inductive Found (h : Heap) : NodeId → Prop where
  | root {n : NodeId} (hn : n ∈ h.rootNodes) : Found h n
  | edge {n m : NodeId} (hn : Found h n) (hstale : h.isStale n = false)
    (hm : m ∈ (traced h n).1) : Found h m
  | weak {e : WeakEntry} {key value : NodeId} (he : e ∈ h.roots.weak.toList)
    (hkey : e.key = some key) (hvalue : e.value = some value) (hk : Found h key) : Found h value
  | stale {e : WeakEntry} {key value : NodeId} (he : e ∈ h.roots.weak.toList)
    (hkey : e.key = some key) (hvalue : e.value = some value) (hk : h.isStale key = true) :
    Found h value

/-- The nodes with storage that marking neither comes to nor takes for marked. -/
def missed (h : Heap) : Set NodeId :=
  {n | h.isAllocated n = true ∧ ¬h.Found n ∧ h.isStale n = false}

/-- What is found is found in a heap that has the roots and the weak entries whose key is found or
looks marked, and in which the same is traced of what is found in both. -/
theorem Found.carry {k : Heap} (hroots : ∀ n ∈ h.rootNodes, n ∈ k.rootNodes)
    (hstale : ∀ n, k.isStale n = h.isStale n)
    (htraced : ∀ m, h.Found m → k.Found m → (traced k m).1 = (traced h m).1)
    (hweak : ∀ e ∈ h.roots.weak.toList, ∀ key, e.key = some key →
      h.Found key ∨ h.isStale key = true → e ∈ k.roots.weak.toList) (hn : h.Found n) :
    k.Found n := by
  induction hn with
  | root hn => exact .root (hroots _ hn)
  | @edge a b ha hs hm ih => exact .edge ih ((hstale a).trans hs) (by rwa [htraced a ha ih])
  | weak he hkey hvalue hk ih => exact .weak (hweak _ he _ hkey (.inl hk)) hkey hvalue ih
  | stale he hkey hvalue hk =>
    exact .stale (hweak _ he _ hkey (.inr hk)) hkey hvalue ((hstale _).trans hk)

/-- What is found depends on the nodes, the cycle and the roots. -/
theorem Found.congr {k : Heap} (hn : h.Found n) (hnodes : k.nodes = h.nodes)
    (hcycle : k.cycle = h.cycle) (hroots : k.rootNodes = h.rootNodes)
    (hweak : k.roots.weak = h.roots.weak) : k.Found n := by
  refine hn.carry (fun _ hm => hroots ▸ hm) (fun m => ?_) (fun m _ _ => ?_)
    fun _ he _ _ _ => hweak ▸ he
  · show ((k.status m).contains .mark == !k.cycle) = ((h.status m).contains .mark == !h.cycle)
    unfold status
    rw [hnodes, hcycle]
  · unfold traced isDetached payload? kind status
    rw [hnodes]

/-- With nothing stale that is attached and no payload borrowed that is reachable, everything is
found that is reachable. -/
theorem Reach.found (inv : Invariant law w h) (hdropping : w.dropping = [])
    (hfresh : ∀ m, h.Attached m → h.isStale m = false)
    (hunborrowed : ∀ m p, h.Reach m → h.payload? m = some p → p.borrowed = false)
    (hn : h.Reach n) : h.Found n := by
  induction hn with
  | root hn => exact .root hn
  | @edge a b p ha hp hb ih =>
    have hattached : h.isDetached a = false := by
      rw [Bool.eq_false_iff, ne_eq, inv.emptied a (by simp [hdropping]) (ha.isAllocated inv), hp]
      exact Option.some_ne_none p
    refine .edge ih (hfresh a ⟨ha.isAllocated inv, hattached⟩) ?_
    rw [traced_eq_edges hattached hp (hunborrowed a p ha hp)]
    exact hb
  | weak he hkey hvalue _ ih => exact .weak he hkey hvalue ih

end Heap

namespace Collector

open Marking

/-- What is found is a scope of marking. -/
theorem scope_found (inv : Invariant law w h) : Scope h.flip h.Found where
  allocated := fun n hn => by
    have hscope := scope_isAllocated inv
    induction hn with
    | root hn => exact hscope.roots _ hn
    | edge _ hs hm ih => exact hscope.edges _ ih hs _ hm
    | weak he hkey hvalue _ ih => exact hscope.weak _ he _ _ hkey hvalue (.inl ih)
    | stale he hkey hvalue hk => exact hscope.weak _ he _ _ hkey hvalue (.inr hk)
  roots := fun n hn => .root hn
  edges := fun n hn hs m hm => .edge hn hs hm
  weak := fun e he key value hkey hvalue hk =>
    hk.elim (.weak he hkey hvalue) (.stale he hkey hvalue)

/-- What is marked when marking is through is what it has come to and what looked marked already. -/
theorem isMarked_iff_found {x : Marking} {dead : List Nat} (he : Explored law w h.flip h.Found x)
    (hc : Marking.Closed h x dead) : x.isMarked n = true ↔ h.Found n ∨ h.isStale n = true := by
  constructor
  · exact fun hmark => (he.marked hmark).imp_left (he.sound n)
  · rintro (hn | hstale)
    · induction hn with
      | root hm => exact hc.roots _ hm
      | @edge a b _ hs hb ih =>
        have hfound : a ∈ found h.flip x := (he.marked ih).resolve_right fun hstart => by
          rw [show (start h.flip).isMarked a = false from hs] at hstart
          cases hstart
        exact he.traced hfound b hb
      | weak hmem hkey hvalue _ ih => exact hc.weak _ hmem _ _ hkey hvalue ih
      | stale hmem hkey hvalue hk => exact hc.weak _ hmem _ _ hkey hvalue (hc.start _ hk)
    · exact hc.start n hstale

/-- Marking marks just what it comes to, other than what looked marked already. -/
theorem mem_found_iff {x : Marking} {dead : List Nat} (he : Explored law w h.flip h.Found x)
    (hc : Marking.Closed h x dead) : n ∈ found h.flip x ↔ h.Found n ∧ h.isStale n = false := by
  constructor
  · exact fun hn => ⟨he.sound n hn, (mem_found.1 hn).2.2⟩
  · rintro ⟨hn, hs⟩
    refine (he.marked ((isMarked_iff_found he hc).2 (.inl hn))).resolve_right fun hstart => ?_
    rw [show (start h.flip).isMarked n = false from hs] at hstart
    cases hstart

open scoped Classical in
/-- The entries that marking finds dead are those whose key it has missed. -/
theorem expire_missed {v : Juncture} {x : Marking} {dead : List Nat} (inv : Invariant law v h)
    (he : Explored law w h.flip h.Found x) (hc : Marking.Closed h x dead) :
    expire (fun slot _ => dead.contains slot) h.roots.weak =
      expire (fun _ e => e.KeyedIn h.missed) h.roots.weak := by
  have hmarked : ∀ key, x.isMarked key = false ↔ ¬h.Found key ∧ h.isStale key = false := by
    intro key
    rw [← Bool.not_eq_true, isMarked_iff_found he hc, not_or, Bool.not_eq_true]
  refine expire_congr fun slot e he => ?_
  rw [Bool.eq_iff_iff, List.contains_iff_mem, hc.dead, decide_eq_true_iff]
  constructor
  · rintro ⟨e', key, he', hkey, hmark⟩
    rw [he] at he'
    cases he'
    have halloc := (inv.weakKeys e (SlotTable.mem_toList.2 ⟨slot, he⟩) key hkey).1
    exact ⟨key, ⟨halloc, (hmarked key).1 hmark⟩, hkey⟩
  · rintro ⟨key, ⟨-, hout⟩, hkey⟩
    exact ⟨e, key, he, hkey, (hmarked key).2 hout⟩

end Collector

/-- What marking leaves: the entries whose key it has missed have expired, and what it comes to,
other than what looked marked already, has been taken to the reachable list. -/
structure Surveyed (h h' : Heap) : Prop
    extends Remains ∅ h.missed h h', Eased h h', Lasting h h' where
  stage : h'.stage = h.stage
  detached : h'.isDetached = h.isDetached
  live : ∀ n, n ∈ h'.rings.toList liveList ↔
    n ∈ h.rings.toList liveList ∧ ¬(h.Found n ∧ h.isStale n = false)
  reached : ∀ n, n ∈ h'.rings.toList reachableList ↔
    n ∈ h.rings.toList reachableList ∨ h.Found n ∧ h.isStale n = false

namespace Collector

open Marking

/-- Marking marks what it comes to, and leaves the rest on the live list. The result is the number
of nodes marked. On the reachable list they are in the order in which they have been marked. -/
theorem mark_surveys (inv : Invariant law { w with guard := some .full } h) (hidle : w.Idle)
    (hphase : w.phase = .marking) (hsettled : w.scarred = false → h.Settled)
    (hturns : w.scarred = false → h.Turns) :
    Returns mark h fun count h' =>
      Invariant law { w with guard := some .full, kept := some h'.keeps } h' ∧
      count = {n | h.Found n ∧ h.isStale n = false}.ncard ∧ Surveyed h h' ∧
      h'.rings.toList reachableList = (Marking.run h).1.heap.rings.toList reachableList := by
  refine (mark_spec inv hidle hphase hsettled hturns (scope_found inv)).mono ?_
  rintro _ h' ⟨x, dead, hrun, he, hc, hcount, inv', hl⟩
  have hrings : h'.rings = x.heap.rings := hl.ringsEq
  have hroots : x.heap.roots = h.roots := he.frame.roots
  have hmarked : {n | h.Found n ∧ h.isStale n = false} = ↑(found h.flip x) := by
    ext n
    exact (mem_found_iff he hc).symm
  -- Marking changes nothing of what remains, then the entries that are dead expire.
  have hpainted : Remains ∅ ∅ h x.heap := { Remains.of_restamped he.frame.restamped with }
  have hexpired : Remains ∅ h.missed x.heap (x.heap.expire fun slot _ => dead.contains slot) :=
    { Remains.refl x.heap with
      roots := by
        show ({ x.heap.roots with weak := expire _ x.heap.roots.weak } : Roots) = _
        rw [hroots, expire_missed inv he hc] }
  have hremains : Remains ∅ h.missed h h' := by
    have hall := (hpainted.trans hexpired).trans (.of_restamped hl.toRestamped)
    simp only [Set.empty_union, Set.union_empty] at hall
    exact hall
  have heased : Eased h (x.heap.expire fun slot _ => dead.contains slot) :=
    .of_eq he.frame.counts he.frame.queue
  have hlasting : Lasting h x.heap := { Lasting.of_restamped he.frame.restamped with }
  have hlasts : Lasting h h' := hlasting.trans { Lasting.of_restamped hl.toRestamped with }
  refine ⟨inv', ?_, { hremains, heased.trans hl.toEased, hlasts with
    stage := hl.stage.trans he.frame.restamped.stage
    detached := hl.isDetached.trans he.frame.isDetached
    live := fun n => ?_
    reached := fun n => ?_ }, ?_⟩
  · rw [hmarked, Set.ncard_coe_finset, hcount, he.count]
  · rw [hrings, he.live, mem_found_iff he hc]
    rfl
  · rw [hrings, he.listed, mem_found_iff he hc]
    rfl
  · rw [hrings, ← hrun]

/-- Mark and sweep, with collections held off. The result has the number of nodes marked and the
number of nodes detached. -/
def markAndSweep (run : Runner) (fuel : Nat) : Act (Nat × Nat) :=
  inhibiting do
    enterPhase .marking
    let marked ← mark
    enterPhase .sweeping
    let detached ← sweep run fuel
    return (marked, detached)

/-- A full collection marks and sweeps, and closes with a lite sweep. -/
theorem markSweep_eq (run : Runner) (fuel : Nat) :
    markSweep run fuel = (do
      if ← Act.view Heap.isInhibited then Act.fatal .inhibited
      let (marked, detached) ← markAndSweep run fuel
      let reclaimed ← liteSweep run fuel
      enterPhase .idle
      return { marked, detached, reclaimed }) := rfl

/-- What marking and sweeping make of the lists: what has been found, unless it was stale, is on the
live list, and what an earlier collection has left on the reachable list, whether it has its payload
or not. Nothing of that is detached meanwhile. -/
structure Relisted (h h' : Heap) : Prop where
  reachable : h'.rings.toList reachableList = []
  live : ∀ n, n ∈ h'.rings.toList liveList ↔
    n ∈ h.rings.toList reachableList ∨ h.Found n ∧ h.isStale n = false
  kept : ∀ n ∈ h'.rings.toList liveList,
    h.isAllocated n = true ∧ h'.isDetached n = h.isDetached n

/-- Mark and sweep make the reachable list the live list, and count what is put there. -/
theorem markAndSweep_lists {run : Runner} (hrun : run.Keeps law w.torn w.scarred) (fuel : Nat)
    (hidle : w.Idle) (hguard : w.guard = none) (inv : Invariant law w h) :
    Leads (markAndSweep run fuel) h
      (fun found h' => Invariant law { w with guard := none, phase := .sweeping } h' ∧
        found.1 = {n | h.Found n ∧ h.isStale n = false}.ncard ∧ Relisted h h')
      (Failed (fun _ => True) w.torn) := by
  have hw := Juncture.eq_unguarded hguard
  have hsettled : w.scarred = false → h.Settled := fun hscarred =>
    inv.settled hscarred (by simp [hguard])
  have hturns : w.scarred = false → h.Turns := fun hscarred =>
    inv.turns hscarred hguard
  rw [hw] at inv
  have hplain := inv.inhibit.beginFull hidle.kept
  have hmarking : Invariant law { w with guard := some .full, phase := .marking }
      { h with inhibitors := h.inhibitors + 1, phase := .marking } :=
    hplain.enterPhase hidle.parting .marking
  have hfound : ∀ n, ({ h with inhibitors := h.inhibitors + 1, phase := .marking } : Heap).Found n ↔
      h.Found n := fun n =>
    ⟨fun hn => hn.congr rfl rfl rfl rfl, fun hn => hn.congr rfl rfl rfl rfl⟩
  unfold markAndSweep inhibiting
  simp only [leads_bind, leads_update, enterPhase]
  -- Holding off collections does not show in the lists, so the body is looked at by itself.
  refine Leads.ensuring (R := fun _ => True) (Q := fun found h' =>
    Invariant law { w with guard := some .plain, phase := .sweeping } h' ∧
      found.1 = {n | h.Found n ∧ h.isStale n = false}.ncard ∧ Relisted h h') ?_ ?_
    fun _ _ => trivial
  · simp only [leads_bind, leads_update, leads_pure]
    refine (mark_surveys (w := { w with phase := .marking }) hmarking (hidle.during _ _) rfl
      hsettled hturns).leads ?_
    rintro marked h₁ ⟨inv₁, hmarked, hs₁, -⟩
    refine (sweep_spec (w := { w with phase := .sweeping }) hrun fuel (hidle.during _ _) rfl
      (inv₁.enterPhase hidle.parting .sweeping)).mono ?_
      fun _ _ hfailed => hfailed.mono fun _ => trivial
    rintro _ h₂ ⟨inv₂, hlive, hswept, hdetached₂⟩
    refine ⟨inv₂, ?_, hswept, fun n => ?_, fun n hn => ?_⟩
    · rw [hmarked]
      simp only [hfound]
      rfl
    · rw [hlive, ← hfound]
      exact hs₁.reached n
    · rw [hlive] at hn
      have halloc := inv₁.listed _ n hn
      rw [Heap.isAllocated_iff, hs₁.stage] at halloc
      exact ⟨Heap.isAllocated_iff.2 halloc, (hdetached₂ n hn).trans (congrFun hs₁.detached n)⟩
  · rintro _ h₂ ⟨inv₂, hmarked, hlists⟩
    have hpermitted : Invariant law { w with guard := none, phase := .sweeping }
        { h₂ with inhibitors := h₂.inhibitors - 1 } :=
      Invariant.permit (w := { w with phase := .sweeping }) inv₂
    exact ⟨hpermitted, hmarked, { hlists with }⟩

/-- After the sweep exactly those nodes are attached that were so before and are on the reachable
list: those that have been found, unless they were stale, and those that an earlier collection has
left there. -/
theorem markAndSweep_spec {run : Runner} (hrun : run.Keeps law w.torn w.scarred) (fuel : Nat)
    (hidle : w.Idle) (hloose : w.loose = []) (hguard : w.guard = none) (inv : Invariant law w h) :
    Leads (markAndSweep run fuel) h
      (fun _ h' => ∀ n, h'.Attached n ↔ h.Attached n ∧
        (n ∈ h.rings.toList reachableList ∨ h.Found n ∧ h.isStale n = false))
      (Failed (fun _ => True) w.torn) := by
  refine (markAndSweep_lists hrun fuel hidle hguard inv).imp ?_
  rintro _ h' ⟨inv', -, hlists⟩ n
  rw [← hlists.live]
  constructor
  · intro hn
    -- What is attached after the sweep is on the live list, which was the reachable list before.
    have hmem : n ∈ h'.rings.toList liveList := by
      have hon := inv'.attached n (by simp [hloose]) hn.1 hn.2
      rw [hlists.reachable] at hon
      exact hon.resolve_right List.not_mem_nil
    obtain ⟨halloc, hdetached⟩ := hlists.kept n hmem
    exact ⟨⟨halloc, hdetached.symm.trans hn.2⟩, hmem⟩
  · rintro ⟨hattached, hmem⟩
    exact ⟨inv'.listed liveList n hmem, (hlists.kept n hmem).2.trans hattached.2⟩

end Collector

namespace Mutator

variable {cuts : Failure → Bool} {held : List (NodeId × Nat)} {fuel depth : Nat}
  {found : Nat × Nat}

/-- A full collection whose sweep returns leaves exactly those nodes attached that were so when it
began and are on the reachable list after marking. -/
theorem Ran.attached_iff (hr : Ran cuts held h)
    (hrun : markAndSweep (runNested (.cutting cuts) fuel depth) fuel h = .ok found h')
    (n : NodeId) : h'.Attached n ↔ h.Attached n ∧
      (n ∈ h.rings.toList reachableList ∨ h.Found n ∧ h.isStale n = false) := by
  have hinv : Invariant .honest (.resumed true held) h := hr.invariant fun _ _ => rfl
  have hsweep := markAndSweep_spec
    (runNested_keeps (@Terms.keep_cutting cuts true fun _ _ => rfl) fuel depth) fuel
    ((Juncture.ready_resumed true held).idle rfl) rfl rfl hinv
  exact hsweep.of_ok hrun n

/-- Unless destructors are cut short no attached node is stale. -/
theorem Ran.isStale_eq_false (hr : Ran (fun _ => false) held h) (hn : h.Attached n) :
    h.isStale n = false :=
  unmarked_start hr.unscarred rfl (by simp [Juncture.resumed, Juncture.rest]) rfl hn.1 hn.2

/-- Unless destructors are cut short the nodes that stay attached are those that are found. -/
theorem Ran.attached_iff_unscarred (hr : Ran (fun _ => false) held h)
    (hrun : markAndSweep (runNested .free fuel depth) fuel h = .ok found h') (n : NodeId) :
    h'.Attached n ↔ h.Attached n ∧ h.Found n := by
  have hempty : h.rings.toList reachableList = [] :=
    (hr.unscarred.settled rfl (by simp [Juncture.resumed, Juncture.rest])).1
  rw [hr.attached_iff hrun, hempty, or_iff_right List.not_mem_nil]
  exact and_congr_right fun hn => and_iff_left (hr.isStale_eq_false hn)

/-! ## Nodes that are born during the sweep -/

/-- Whatever destructors do, the sweep of a full collection leaves its payload to no node but those
that were attached and found when the collection began: not to a node that a destructor has
allocated meanwhile, whether a root designates it or not. -/
theorem found_of_attached (hr : Ran (fun _ => false) held h)
    (hrun : markAndSweep (runNested .free fuel depth) fuel h = .ok found h')
    (hn : h'.Attached n) : h.Attached n ∧ h.Found n :=
  (hr.attached_iff_unscarred hrun n).1 hn

/-- A rooted node stays attached while the destructor of another allocates a third. -/
theorem found_of_attached_root :
    ∃ h found h', Ran (fun _ => false) [] h ∧
      markAndSweep (runNested .free 9 9) 9 h = .ok found h' ∧
      h'.Attached 0 ∧ h.Attached 0 ∧ h.Found 0 := by
  have hresume : ((resume (fun _ => false) [.allocate (.root "a") .node [] none,
      .allocate .bare .node [] (some [.allocate (.root "b") .node [] none])]).any
        fun h => Returns (markAndSweep (runNested .free 9 9) 9) h fun _ h' =>
          h'.Attached 0) = true := by
    decide +kernel
  obtain ⟨h, hh, hsweep⟩ := (Option.any_eq_true _ _).1 hresume
  obtain ⟨found, h', hrun, hattached⟩ := returns_iff.1 (of_decide_eq_true hsweep)
  have hr : Ran (fun _ => false) [] h := ran_of_resume hh
  exact ⟨h, found, h', hr, hrun, hattached, found_of_attached hr hrun hattached⟩

/-- The destructor of a garbage node allocates a node and roots it, and the sweep that runs the
destructor drops the payload of that node all the same. -/
theorem rooted_detached :
    ∃ h a h', Ran (fun _ => false) [] h ∧ h.nodes.size = 1 ∧
      answer .free (runNested .free 9 9) 9 .full h = .ok a h' ∧
      1 ∈ h'.roots.explicit.toList ∧ h'.isAllocated 1 = true ∧ h'.isDetached 1 = true := by
  have hresume : ((resume (fun _ => false) [.allocate .bare .node []
      (some [.allocate (.root "a") .node [] none])]).any
        fun h => h.nodes.size = 1 ∧ Returns (answer .free (runNested .free 9 9) 9 .full) h
          fun _ h' => 1 ∈ h'.roots.explicit.toList ∧ h'.isAllocated 1 = true ∧
            h'.isDetached 1 = true) = true := by
    decide +kernel
  obtain ⟨h, hh, hsweep⟩ := (Option.any_eq_true _ _).1 hresume
  obtain ⟨hsize, hreturns⟩ := of_decide_eq_true hsweep
  obtain ⟨a, h', hrun, hroot⟩ := returns_iff.1 hreturns
  exact ⟨h, a, h', ran_of_resume hh, hsize, hrun, hroot⟩

/-! ## Borrowed payloads -/

/-- An attached node keeps its payload in a full collection exactly if it is found, and found is
what is reachable if no payload is borrowed on the way. The edges of a payload that is borrowed
when the collection begins keep nothing. -/
theorem attached_iff_found (hr : Ran (fun _ => false) held h)
    (hrun : markAndSweep (runNested .free fuel depth) fuel h = .ok found h')
    (hn : h.Attached n) :
    (h'.Attached n ↔ h.Found n) ∧
      ((∀ m p, h.Reach m → h.payload? m = some p → p.borrowed = false) → h.Reach n →
        h'.Attached n) := by
  have hiff : h'.Attached n ↔ h.Found n :=
    (hr.attached_iff_unscarred hrun n).trans (and_iff_right hn)
  refine ⟨hiff, fun hunborrowed hreach => hiff.2 ?_⟩
  exact hreach.found hr.unscarred rfl (fun _ hm => hr.isStale_eq_false hm) hunborrowed

/-- A node whose payload is borrowed while a root designates it is found; the target of the edge in
that payload is not. -/
theorem attached_iff_found_held :
    ∃ slot h found h', Ran (fun _ => false) [(1, slot)] h ∧
      markAndSweep (runNested .free 9 9) 9 h = .ok found h' ∧ h.Found 1 ∧ ¬h.Found 0 := by
  have hresume : ((resume (fun _ => false) [.allocate .bare .node [] none,
      .allocate (.root "a") .node [0] none]).any
        fun h => Returns (beginHold 1) h fun _ k => k.Attached 0 ∧ k.Attached 1 ∧
          Returns (markAndSweep (runNested .free 9 9) 9) k fun _ k' =>
            ¬k'.Attached 0 ∧ k'.Attached 1) = true := by
    decide +kernel
  obtain ⟨h, hh, hhold⟩ := (Option.any_eq_true _ _).1 hresume
  obtain ⟨slot, k, hbegin, hleaf, hheld, hsweep⟩ := returns_iff.1 (of_decide_eq_true hhold)
  obtain ⟨found, k', hrun, hlost, hkept⟩ := returns_iff.1 hsweep
  have hr : Ran (fun _ => false) [(1, slot)] k := (ran_of_resume hh).hold hbegin
  exact ⟨slot, k, found, k', hr, hrun, (attached_iff_found hr hrun hheld).1.1 hkept,
    fun hfound => hlost ((attached_iff_found hr hrun hleaf).1.2 hfound)⟩

/-- A full collection while a payload is borrowed drops the payload of a node to which the only
edge is in the borrowed one. -/
theorem reach_detached_while_held :
    ∃ slot h a h', Ran (fun _ => false) [(1, slot)] h ∧ h.Attached 0 ∧ h.Reach 0 ∧
      answer .free (runNested .free 9 9) 9 .full h = .ok a h' ∧ h'.isDetached 0 = true := by
  have hresume : ((resume (fun _ => false) [.allocate .bare .node [] none,
      .allocate (.root "a") .node [0] none]).any
        fun h => Returns (beginHold 1) h fun _ k => k.Attached 0 ∧ 1 ∈ k.rootNodes ∧
          ((k.payload? 1).map Payload.edges) = some [0] ∧
          Returns (answer .free (runNested .free 9 9) 9 .full) k fun _ k' =>
            k'.isDetached 0 = true) = true := by
    decide +kernel
  obtain ⟨h, hh, hhold⟩ := (Option.any_eq_true _ _).1 hresume
  obtain ⟨slot, k, hbegin, hattached, hroot, hedges, hfull⟩ :=
    returns_iff.1 (of_decide_eq_true hhold)
  obtain ⟨a, k', hrun, hdetached⟩ := returns_iff.1 hfull
  obtain ⟨p, hp, hp'⟩ := Option.map_eq_some_iff.1 hedges
  have hreach : k.Reach 0 := .edge (.root hroot) hp (hp' ▸ List.mem_singleton.2 rfl)
  exact ⟨slot, k, a, k', (ran_of_resume hh).hold hbegin, hattached, hreach, hrun, hdetached⟩

/-! ## Destructors that unwind -/

/-- Whatever has been cut short before, an attached node keeps its payload in a full collection that
is not cut short itself exactly if it is found and not stale, or has been left on the reachable
list. If no attached node is stale, what is reachable is kept, with no payload borrowed on the
way. -/
theorem attached_iff_not_stale (hr : Ran cuts held h)
    (hrun : markAndSweep (runNested (.cutting cuts) fuel depth) fuel h = .ok found h')
    (hn : h.Attached n) :
    (h'.Attached n ↔
      n ∈ h.rings.toList reachableList ∨ h.Found n ∧ h.isStale n = false) ∧
      ((∀ m, h.Attached m → h.isStale m = false) →
        (∀ m p, h.Reach m → h.payload? m = some p → p.borrowed = false) → h.Reach n →
          h'.Attached n) := by
  have hinv : Invariant .honest (.resumed true held) h := hr.invariant fun _ _ => rfl
  have hiff := (hr.attached_iff hrun n).trans (and_iff_right hn)
  refine ⟨hiff, fun hfresh hunborrowed hreach => hiff.2 (.inr ⟨?_, hfresh n hn⟩)⟩
  exact hreach.found hinv rfl hfresh hunborrowed

/-- A destructor that is cut short leaves a node stale that has not been swept. A node that is
rooted later is not, and keeps its payload in the next full collection. -/
theorem attached_iff_not_stale_later :
    ∃ h found h', Ran Failure.isFinal [] h ∧
      markAndSweep (runNested (.cutting Failure.isFinal) 9 9) 9 h = .ok found h' ∧
      h.Attached 1 ∧ h.isStale 1 = true ∧ ¬h'.Attached 1 ∧ h'.Attached 3 ∧ h.Found 3 := by
  have hresume : ((resume Failure.isFinal [
      .allocate .bare .node [] (some [.allocate .bare .overaligned [] none]),
      .allocate (.edge "a") .node [] none, .full, .allocate (.root "b") .node [] none]).any
        fun h => (h.Attached 1 ∧ h.isStale 1 = true ∧ h.Attached 3 ∧
          3 ∉ h.rings.toList reachableList) ∧
          Returns (markAndSweep (runNested (.cutting Failure.isFinal) 9 9) 9) h fun _ h' =>
            ¬h'.Attached 1 ∧ h'.Attached 3) = true := by
    decide +kernel
  obtain ⟨h, hh, hfacts⟩ := (Option.any_eq_true _ _).1 hresume
  obtain ⟨⟨hunswept, hstale, hattached, hunlisted⟩, hsweep⟩ := of_decide_eq_true hfacts
  obtain ⟨found, h', hrun, hlost, hkept⟩ := returns_iff.1 hsweep
  have hr : Ran Failure.isFinal [] h := ran_of_resume hh
  have hfound := ((attached_iff_not_stale hr hrun hattached).1.1 hkept).resolve_left hunlisted
  exact ⟨h, found, h', hr, hrun, hunswept, hstale, hlost, hkept, hfound.1⟩

/-- A destructor that a fatal error cuts short in the sweep leaves another node on the live list
unmarked. The cycle has been flipped by then, so the next full collection takes the node for marked,
and drops its payload though a root designates it. -/
theorem rooted_detached_after_unwinding :
    ∃ h a h', Ran Failure.isFinal [] h ∧ h.fates 0 = [.started, .unwound] ∧ h.Attached 1 ∧
      1 ∈ h.roots.explicit.toList ∧
      answer .free (runNested (.cutting Failure.isFinal) 9 9) 9 .full h = .ok a h' ∧
      1 ∈ h'.roots.explicit.toList ∧ h'.isDetached 1 = true := by
  have hresume : ((resume Failure.isFinal [
      .allocate .bare .node [] (some [.allocate .bare .overaligned [] none]),
      .allocate (.edge "a") .node [] none, .full, .rootFrom "b" "a"]).any
        fun h => h.fates 0 = [.started, .unwound] ∧ h.Attached 1 ∧
          1 ∈ h.roots.explicit.toList ∧
          Returns (answer .free (runNested (.cutting Failure.isFinal) 9 9) 9 .full) h fun _ h' =>
            1 ∈ h'.roots.explicit.toList ∧ h'.isDetached 1 = true) = true := by
    decide +kernel
  obtain ⟨h, hh, hfacts⟩ := (Option.any_eq_true _ _).1 hresume
  obtain ⟨hstarted, hattached, hroot, hfull⟩ := of_decide_eq_true hfacts
  obtain ⟨a, h', hrun, hdropped⟩ := returns_iff.1 hfull
  exact ⟨h, a, h', ran_of_resume hh, hstarted, hattached, hroot, hrun, hdropped⟩

end Mutator

end HybridHeap
