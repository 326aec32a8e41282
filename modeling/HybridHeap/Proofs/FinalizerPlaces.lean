import HybridHeap.Proofs.Expiry
import HybridHeap.Proofs.Finalizers

/-!
# No finalizer is lost or run twice

A finalizer stays in the entry of its weak reference until the key dies, and is on the queue from
then on until it is started. It goes with the entry if the reference is dropped before. Finalizers
are told from each other by the numbers that they are given, so that being in one place once is a
matter of lists of numbers. These lists only grow, so a finalizer that has been discarded is never
started, and one that has been started had been queued because its key died.
-/

namespace HybridHeap

open Collector Act Mutator

variable {law : Law} {w : Juncture} {h h' k : Heap} {run : Runner} {fuel : Nat}

/-- The numbers of the finalizers on the queue, in the order in which they will be started. -/
def Heap.queue (h : Heap) : List Nat := h.pending.map Finalizer.number

/-- Where the finalizers are that were given to weak references. -/
structure Heap.Placed (h : Heap) : Prop where
  /-- Each of them is in an entry, on the queue, started or discarded, and that once. -/
  places : (List.range h.chronicle.given).Perm
    (h.roots.weak.retained ++ h.queue ++ h.chronicle.started ++ h.chronicle.discarded)
  /-- A weak reference that is held has its entry. -/
  held : ∀ x ∈ h.handles, ∀ slot, x.2 = .weak slot → (h.roots.weak.get? slot).isSome
  /-- As long as there is an entry, it has the finalizer until the key expires, and the finalizer is
  on the queue or started from then on. -/
  entries : ∀ slot e m i, h.roots.weak.get? slot = some e → h.chronicle.making? slot = some m →
    m.finalizer = some i → (e.number? = some i ↔ e.key ≠ none) ∧
      (i ∈ h.queue ∨ i ∈ h.chronicle.started ↔ e.key = none) ∧ i ∉ h.chronicle.discarded

/-- The queue of finalizers and the chronicle are the same. -/
structure Heap.SameRecord (h h' : Heap) : Prop where
  pending : h'.pending = h.pending
  chronicle : h'.chronicle = h.chronicle

theorem Heap.SameRecord.trans (hs : h.SameRecord h') (hs' : h'.SameRecord k) : h.SameRecord k :=
  ⟨hs'.pending.trans hs.pending, hs'.chronicle.trans hs.chronicle⟩

/-- Where no entry has just expired every finalizer is in its place. -/
theorem Invariant.placed (inv : Invariant law w h) (hw : w.Intact) (hparting : w.parting = []) :
    h.Placed := by
  have hledger := inv.ledger hw
  rw [hparting] at hledger
  have hqueued : h.chronicle.queued = h.queue.reverse ++ h.chronicle.started := hledger.queue
  have hmem : ∀ i, i ∈ h.chronicle.queued ↔ i ∈ h.queue ∨ i ∈ h.chronicle.started := fun i => by
    rw [hqueued, List.mem_append, List.mem_reverse]
  refine ⟨List.perm_iff_count.2 fun i => ?_, fun x hx slot => inv.isSome_of_held hx,
    fun slot e m i he hm hi => ?_⟩
  · have hcount := hledger.count_places i
    rw [List.count_nil, hqueued] at hcount
    simp only [List.count_append, List.count_reverse] at hcount ⊢
    omega
  · obtain ⟨m', hm', hkeyed⟩ := hledger.made slot e he
    cases hm.symm.trans hm'
    have hcount := hledger.count_places i
    have hbound := List.nodup_iff_count_le_one.1 (List.nodup_range (n := h.chronicle.given)) i
    rw [← hmem]
    cases hkey : e.key with
    | some key =>
      -- The entry has the finalizer, so it is in no other place.
      have hnumber : e.number? = some i := (hkeyed key hkey).2.symm.trans hi
      have hretained : 0 < h.roots.weak.retained.count i := List.count_pos_iff.2
        (List.mem_filterMap.2 ⟨e, SlotTable.mem_toList.2 ⟨slot, he⟩, hnumber⟩)
      have hout : h.chronicle.queued.count i = 0 ∧ h.chronicle.discarded.count i = 0 := by omega
      rw [List.count_eq_zero, List.count_eq_zero] at hout
      simp [hnumber, hout]
    | none =>
      -- The entry has nothing, and the finalizer has been queued.
      have hnone : e.number? = none := by
        rw [inv.hollow e (SlotTable.mem_toList.2 ⟨slot, he⟩) hkey]
        rfl
      have hon : i ∈ h.chronicle.queued :=
        (hledger.expired slot e m i he hkey hm hi).resolve_left List.not_mem_nil
      have hpos : 0 < h.chronicle.queued.count i := List.count_pos_iff.2 hon
      have hout : h.chronicle.discarded.count i = 0 := by omega
      rw [List.count_eq_zero] at hout
      simp [hnone, hon, hout]

namespace Collector

/-- Counting a reference down does nothing to finalizers, even if it fails. -/
theorem decrement_sameRecord (n : NodeId) :
    Leads (decrement n) h (fun _ => h.SameRecord) fun _ => h.SameRecord := by
  unfold decrement
  simp only [leads_bind, leads_view]
  split
  · simp only [leads_bind, leads_update]
    split <;> exact ⟨rfl, rfl⟩
  · simp only [leads_bind, leads_view]
    exact ⟨rfl, rfl⟩

/-- Releasing references does nothing to finalizers. -/
theorem releaseAll_sameRecord (ns : List NodeId) :
    Leads (releaseAll ns) h (fun _ => h.SameRecord) fun _ => h.SameRecord := by
  induction ns generalizing h with
  | nil => exact ⟨rfl, rfl⟩
  | cons n ns ih =>
    have hrest : ∀ h', h.SameRecord h' →
        Leads (releaseAll ns) h' (fun _ => h.SameRecord) fun _ => h.SameRecord := fun h' hsame =>
      ih.mono (fun _ _ => hsame.trans) fun _ _ => hsame.trans
    unfold releaseAll
    rw [leads_ensuring]
    exact (decrement_sameRecord n).mono (fun _ => hrest) fun _ => hrest

/-- When the loop over the pending finalizers returns none is left. -/
theorem runFinalizers_empties (ran : Nat) :
    Leads (runFinalizers run fuel ran) h (fun _ h' => h'.pending = []) fun _ _ => True := by
  induction fuel generalizing h ran with
  | zero => exact leads_throw.2 trivial
  | succ fuel ih =>
    unfold runFinalizers
    simp only [leads_bind, leads_view]
    cases hf : h.pending.head? with
    | none => exact List.head?_eq_none_iff.1 hf
    | some f =>
      simp only [leads_bind, leads_update]
      -- Whatever the finalizer does to the queue, the next turn looks at it again.
      exact (leads_of_const (P := True) trivial).imp fun _ _ _ => ih _

/-- A request to run the pending finalizers, alone or after a collection, made on `h`, returns with
`h'`. -/
inductive Drains (run : Runner) (fuel : Nat) (h h' : Heap) : Prop where
  | pending {ran : Nat} (hrun : runPendingFinalizers run fuel h = .ok ran h')
  | lite {reclaimed : Nat} (hrun : runLiteSweep run fuel h = .ok reclaimed h')
  | full {result : CollectionResult} (hrun : forceFullCollection run fuel h = .ok result h')

/-- A request for the pending finalizers that returns leaves none. -/
theorem Drains.pending_eq_nil (hd : Drains run fuel h h') : h'.pending = [] := by
  have hafter : ∀ {α : Type} (x : Act α),
      Leads (do let a ← x; discard <| runPendingFinalizers run fuel; return a) h
        (fun _ h' => h'.pending = []) fun _ _ => True := fun x => by
    simp only [leads_bind, leads_discard, leads_pure]
    exact (leads_of_const (P := True) trivial).imp fun _ _ _ => runFinalizers_empties 0
  cases hd with
  | pending hrun => exact (runFinalizers_empties 0).of_ok hrun
  | lite hrun => exact (hafter (liteSweep run fuel)).of_ok hrun
  | full hrun => exact (hafter (collect run fuel)).of_ok hrun

/-- A request for the pending finalizers that returns keeps the invariant. -/
theorem Drains.invariant (hrun : run.Keeps law w.torn w.scarred) (hready : w.Ready)
    (hd : Drains run fuel h h') (inv : Invariant law w h) : Invariant law w h' := by
  cases hd with
  | pending hok => exact (runFinalizers_spec hrun fuel 0 hready inv).of_ok hok
  | lite hok => exact (runLiteSweep_spec hrun fuel hready inv).of_ok hok
  | full hok => exact (forceFullCollection_spec hrun fuel hready inv).of_ok hok

end Collector

namespace Mutator

/-- The invariant holds wherever the mutator comes to, at a juncture that keeps in mind what the
chronicle says there. -/
theorem Visited.remembering (hv : Visited law k) :
    ∃ w, w.Whole ∧ w.past = k.chronicle ∧ Invariant law w k := by
  obtain ⟨w, hwhole, inv⟩ := hv.invariant
  exact ⟨{ w with past := k.chronicle },
    { hwhole with idle := fun hnone => { hwhole.idle hnone with } }, rfl,
    { inv with past := .refl _ }⟩

/-- Dropping a weak reference discards the finalizer that its entry still has and touches no
other. -/
theorem dropNamed_discards {name : HandleName} {slot : Nat} (inv : Invariant law w h)
    (hname : h.handles.lookup name = some (.weak slot)) :
    Returns (dropNamed name) h fun _ h' => h'.pending = h.pending ∧
      h'.chronicle = h.chronicle.discard ((h.roots.weak.get? slot).bind WeakEntry.number?) := by
  have hdrop := dropWeak_spec (invariant_release inv hname rfl)
  have hrecorded : Leads (dropWeak slot) { h with handles := h.without name }
      (fun _ h' => h'.pending = h.pending ∧
        h'.chronicle = h.chronicle.discard ((h.roots.weak.get? slot).bind WeakEntry.number?))
      fun _ _ => True := by
    unfold dropWeak
    simp only [leads_bind, leads_view, leads_update]
    exact (releaseAll_sameRecord _).mono (fun _ _ hs => ⟨hs.pending, hs.chronicle⟩)
      fun _ _ _ => trivial
  unfold dropNamed handle Returns
  simp only [leads_bind, leads_view, hname, leads_pure, leads_release]
  exact (hdrop.and hrecorded).mono (fun _ _ hboth => hboth.2) fun _ _ hboth => hboth.1

/-- Wherever the mutator comes to, every finalizer is in its place. What becomes of it in a step is
for good, and dropping a weak reference discards the finalizer that its entry still has and no
other. A request for the pending finalizers that returns has emptied the queue, and has started what
was on it, and what was put on it meanwhile, in the order of the queue. -/
theorem finalizers_placed (hv : Visited .honest k) :
    k.Placed ∧
    (∀ fuel depth step a k', answer (.under .honest) (runNested (.under .honest) fuel depth) fuel
      step k = .ok a k' → k.chronicle.Precedes k'.chronicle) ∧
    (∀ name slot e, k.handles.lookup name = some (.weak slot) → k.roots.weak.get? slot = some e →
      Returns (dropNamed name) k fun _ k' => k'.queue = k.queue ∧
        k'.chronicle.started = k.chronicle.started ∧
        k'.chronicle.discarded = e.number?.toList ++ k.chronicle.discarded) ∧
    ∀ fuel depth k', Drains (runNested (.under .honest) fuel depth) fuel k k' →
      k'.queue = [] ∧ ∃ later, k'.chronicle.queued = later ++ k.chronicle.queued ∧
        k'.chronicle.started = later ++ k.queue.reverse ++ k.chronicle.started := by
  obtain ⟨w, hwhole, hpast, inv⟩ := hv.remembering
  have hterms := Terms.keep_of_whole hwhole .honest
  have hkeeps := runNested_keeps hterms
  refine ⟨inv.placed hwhole.intact hwhole.parting, fun fuel depth step a k' hstep => ?_,
    fun name slot e hname he => ?_, fun fuel depth k' hd => ?_⟩
  · have hanswer := answer_spec hterms (hkeeps fuel depth) fuel hwhole.toReady inv step
    rw [← hpast]
    exact (hanswer.of_ok hstep).past
  · refine (dropNamed_discards inv hname).mono ?_
    rintro _ k' ⟨hpending, hchronicle⟩
    rw [hchronicle, he]
    exact ⟨congrArg (List.map Finalizer.number) hpending, rfl, rfl⟩
  · have inv' := hd.invariant (hkeeps fuel depth) hwhole.toReady inv
    have hnone := hd.pending_eq_nil
    -- What has been queued has been started or is pending, and nothing is pending any more.
    have hqueued : k'.chronicle.queued = k'.chronicle.started := by
      rw [(inv'.ledger hwhole.intact).queue, hnone]
      rfl
    obtain ⟨later, hlater⟩ := inv'.past.1
    rw [hpast] at hlater
    refine ⟨congrArg (List.map Finalizer.number) hnone, later, hlater.symm, ?_⟩
    rw [← hqueued, ← hlater, (inv.ledger hwhole.intact).queue, List.append_assoc]
    rfl

/-- With one finalizer in an entry, one whose key is garbage and one discarded, a full collection
starts the second, which makes another weak reference and has its finalizer run in its turn. -/
theorem finalizers_placed_nested :
    ∃ k k', Visited .honest k ∧ k.roots.weak.retained = [0, 1] ∧ k.chronicle.discarded = [2] ∧
      k.Placed ∧ Drains (runNested (.under .honest) 15 15) 15 k k' ∧
      k'.chronicle.started = [3, 1] ∧ k'.queue = [] ∧
      ∃ later, k'.chronicle.started = later ++ k.queue.reverse ++ k.chronicle.started := by
  have hplay : ((play .honest [.allocate (.root "a") .node [] none, .allocate .bare .node [] none,
      .weak "v" 0 none (some []),
      .weak "w" 1 none (some [.allocate .bare .node [] none, .weak "y" 2 none (some []), .full]),
      .weak "x" 0 none (some []), .drop "x"]).any fun k =>
        k.roots.weak.retained = [0, 1] ∧ k.chronicle.discarded = [2] ∧
        Returns (forceFullCollection (runNested (.under .honest) 15 15) 15) k fun _ k' =>
          k'.chronicle.started = [3, 1]) = true := by
    decide +kernel
  obtain ⟨k, hk, hfacts⟩ := (Option.any_eq_true _ _).1 hplay
  obtain ⟨hretained, hdiscarded, hfull⟩ := of_decide_eq_true hfacts
  obtain ⟨result, k', hrun, hstarted⟩ := returns_iff.1 hfull
  have hv : Visited .honest k := ⟨k, reached_of_play hk, .inl rfl⟩
  have hd : Drains (runNested (.under .honest) 15 15) 15 k k' := .full hrun
  obtain ⟨hplaced, -, -, hdrains⟩ := finalizers_placed hv
  obtain ⟨hempty, later, -, hlater⟩ := hdrains 15 15 k' hd
  exact ⟨k, k', hv, hretained, hdiscarded, hplaced, hd, hstarted, hempty, later, hlater⟩

end Mutator

end HybridHeap
