import HybridHeap.Proofs.Condemning
import HybridHeap.Proofs.MarkingOrder

/-!
# Marking after a lite sweep

Marking does not come to garbage: no root designates it, only payloads of garbage have edges to it,
and it is the value only of weak entries keyed by it. So a lite sweep makes no difference to what
marking finds afterwards, nor to the order in which it does. There is one exception. Marking takes a
key for marked that looks marked though no sweep has put it on the live list, and so comes to the
value of its entry. A detached node may look like that, and if it is garbage the lite sweep takes
the entry away. What follows is about heaps in which no garbage that is a key looks marked.
-/

namespace HybridHeap

open Collector Act

-- Unification would run marking where it only has to name it.
attribute [local irreducible] Collector.mark

variable {law : Law} {w : Juncture} {h h' : Heap} {n : NodeId}

/-! ## What marking does not come to -/

/-- No garbage that keys a weak entry looks marked. -/
def Heap.KeysFresh (h : Heap) : Prop :=
  ∀ e ∈ h.roots.weak.toList, ∀ key ∈ h.garbage, e.key = some key → h.isStale key = false

/-- So it is where no key looks marked. -/
theorem Heap.keysFresh_of_all
    (hall : ∀ e ∈ h.roots.weak.toList, e.key.all (fun key => !h.isStale key) = true) :
    h.KeysFresh := by
  intro e he key _ hkey
  have hfresh := hall e he
  rw [hkey] at hfresh
  simpa using hfresh

/-- Marking finds no garbage. -/
theorem Heap.Found.not_mem_garbage (inv : Invariant law w h) (hpinning : h.Pinning)
    (hkeys : h.KeysFresh) (hn : h.Found n) : n ∉ h.garbage := by
  induction hn with
  | root hn => exact hpinning.not_mem_garbage inv hn
  | edge _ _ hm ih =>
    obtain ⟨p, hp, hedge⟩ := mem_traced hm
    refine not_mem_garbage_of_edge inv ih ?_
    rw [edges_eq, hp]
    exact List.mem_append_left _ hedge
  | weak he hkey hvalue _ ih => exact not_mem_garbage_of_value inv he hkey ih hvalue
  | stale he hkey hvalue hk =>
    refine not_mem_garbage_of_value inv he hkey (fun hmem => ?_) hvalue
    rw [hkeys _ he _ hmem hkey] at hk
    cases hk

/-! ## What a lite sweep leaves to be marked -/

namespace Pruned

/-- What has storage after a lite sweep is what had it and is no garbage. -/
theorem isAllocated_iff (hp : Pruned h h') :
    h'.isAllocated n = true ↔ h.isAllocated n = true ∧ n ∉ h.garbage := by
  rw [Heap.isAllocated_iff, Heap.isAllocated_iff]
  by_cases hn : n ∈ h.garbage
  · simp [hp.freed n hn, hn]
  · simp [hp.stage n hn, hn]

/-- What looks marked looks marked as before. -/
theorem isStale (hp : Pruned h h') (n : NodeId) : h'.isStale n = h.isStale n := by
  show ((h'.status n).contains .mark == !h'.cycle) = ((h.status n).contains .mark == !h.cycle)
  rw [hp.mark, hp.cycle]

/-- The same is traced of what is no garbage. -/
theorem traced (hp : Pruned h h') (hn : n ∉ h.garbage) :
    Collector.traced h' n = Collector.traced h n := by
  unfold Collector.traced
  rw [hp.detached n hn, hp.payload n hn, hp.kind]

/-- The root sources still ask for pinning. -/
theorem pinning (hp : Pruned h h') (hpinning : h.Pinning) : h'.Pinning := by
  unfold Heap.Pinning
  rw [hp.roots, hp.sources]
  exact hpinning

/-- The roots designate what they did. -/
theorem rootNodes (hp : Pruned h h') (inv : Invariant law w h) (hpinning : h.Pinning) :
    h'.rootNodes = h.rootNodes := by
  rw [hpinning.rootNodes_eq, (hp.pinning hpinning).rootNodes_eq, hp.pinned inv, hp.roots]

/-- The weak entries that have a key are those that had one which is no garbage. -/
theorem mem_weak_iff (hp : Pruned h h') {e : WeakEntry} {key : NodeId} (hkey : e.key = some key) :
    e ∈ h'.roots.weak.toList ↔ e ∈ h.roots.weak.toList ∧ key ∉ h.garbage := by
  classical
  rw [hp.roots, toList_expire_of_entry, List.mem_map]
  constructor
  · rintro ⟨e', he', heq⟩
    by_cases hkeyed : e'.KeyedIn h.garbage
    · simp only [hkeyed, decide_true, if_true] at heq
      rw [← heq] at hkey
      cases hkey
    · simp only [hkeyed, decide_false, Bool.false_eq_true, if_false] at heq
      subst heq
      exact ⟨he', (WeakEntry.keyedIn_iff hkey).not.1 hkeyed⟩
  · rintro ⟨he, hout⟩
    exact ⟨e, he, by simp [(WeakEntry.keyedIn_iff hkey).not.2 hout]⟩

section

variable (hp : Pruned h h') (inv : Invariant law w h) (hpinning : h.Pinning) (hkeys : h.KeysFresh)
include hp inv hpinning hkeys

/-- Marking finds the same. -/
theorem found_iff : h'.Found n ↔ h.Found n := by
  have hroots := hp.rootNodes inv hpinning
  have hout : ∀ m, h.Found m → m ∉ h.garbage := fun m hm => hm.not_mem_garbage inv hpinning hkeys
  constructor
  · refine .carry (fun _ hm => hroots ▸ hm) (fun m => (hp.isStale m).symm) (fun m _ hm => ?_)
      fun e he key hkey _ => ((hp.mem_weak_iff hkey).1 he).1
    rw [hp.traced (hout m hm)]
  · refine .carry (fun _ hm => hroots ▸ hm) hp.isStale (fun m hm _ => ?_)
      fun e he key hkey hmarked => (hp.mem_weak_iff hkey).2 ⟨he, fun hmem => ?_⟩
    · rw [hp.traced (hout m hm)]
    · rcases hmarked with hfound | hstale
      · exact hout key hfound hmem
      · rw [hkeys e he key hmem hkey] at hstale
        cases hstale

/-- It misses the same, but for the garbage. -/
theorem missed_eq : h'.missed = h.missed \ h.garbage := by
  ext n
  show h'.isAllocated n = true ∧ ¬h'.Found n ∧ h'.isStale n = false ↔
    (h.isAllocated n = true ∧ ¬h.Found n ∧ h.isStale n = false) ∧ n ∉ h.garbage
  rw [hp.isAllocated_iff, hp.found_iff inv hpinning hkeys, hp.isStale]
  tauto

/-- Marking goes the same way. -/
theorem parallel (inv' : Invariant law w h') (hcalm : w.Idle) (hguard : w.guard = none)
    (hscarred : w.scarred = false) :
    Marking.Parallel h.Found h.garbage
      (Heap.flip { h with inhibitors := h.inhibitors + 1, phase := .marking })
      (Heap.flip { h' with inhibitors := h'.inhibitors + 1, phase := .marking }) := by
  have hsettled : h.Settled := inv.settled hscarred (by simp [hguard])
  have hsettled' : h'.Settled := inv'.settled hscarred (by simp [hguard])
  have hsame : ({ h with inhibitors := h.inhibitors + 1, phase := .marking } : Heap).Found =
      h.Found := funext fun n => propext
    ⟨fun hn => hn.congr rfl rfl rfl rfl, fun hn => hn.congr rfl rfl rfl rfl⟩
  have hsame' : ({ h' with inhibitors := h'.inhibitors + 1, phase := .marking } : Heap).Found =
      h.Found := funext fun n => propext
    ⟨fun hn => (hp.found_iff inv hpinning hkeys).1 (hn.congr rfl rfl rfl rfl),
      fun hn => ((hp.found_iff inv hpinning hkeys).2 hn).congr rfl rfl rfl rfl⟩
  have hw := Juncture.eq_unguarded hguard
  rw [hw] at inv inv'
  classical
  exact
    { left := hsame ▸ scope_found
        ((inv.inhibit.beginFull hcalm.kept).enterPhase hcalm.parting .marking)
      right := hsame' ▸ scope_found
        ((inv'.inhibit.beginFull hcalm.kept).enterPhase hcalm.parting .marking)
      apart := fun n hn => hn.not_mem_garbage inv hpinning hkeys
      size := hp.size
      traced := fun n hn => congrArg Prod.fst (hp.traced (hn.not_mem_garbage inv hpinning hkeys))
      marked := fun n _ => hp.isStale n
      roots := hp.rootNodes inv hpinning
      keyed := Marking.keyed_expire
        (fun _ e key hkey => decide_eq_true_iff.trans (WeakEntry.keyedIn_iff hkey))
        (congrArg Roots.weak hp.roots)
      unmarked := by
        rintro ⟨slot, key, value⟩ hx hmem
        obtain ⟨e, hslot, hekey, -⟩ := Marking.mem_keyed.1 hx
        exact hkeys e (SlotTable.mem_toList.2 ⟨slot, hslot⟩) key hmem hekey
      order := hsettled'.1.trans hsettled.1.symm }

/-- It marks the same nodes in the same order. -/
theorem order_eq (inv' : Invariant law w h') (hcalm : w.Idle) (hguard : w.guard = none)
    (hscarred : w.scarred = false) : h'.order = h.order := by
  have hparallel := hp.parallel inv hpinning hkeys inv' hcalm hguard hscarred
  have hsettled : h.Settled := inv.settled hscarred (by simp [hguard])
  have hsettled' : h'.Settled := inv'.settled hscarred (by simp [hguard])
  have hturns : h.Turns := inv.turns hscarred hguard
  have hturns' : h'.Turns := inv'.turns hscarred hguard
  have hw := Juncture.eq_unguarded hguard
  rw [hw] at inv inv'
  exact (hparallel.run (w := { w with phase := .marking }) (v := { w with phase := .marking })
    ((inv.inhibit.beginFull hcalm.kept).enterPhase hcalm.parting .marking) hcalm.kept
    (fun _ => hsettled.1) (fun _ => hturns)
    ((inv'.inhibit.beginFull hcalm.kept).enterPhase hcalm.parting .marking) hcalm.kept
    (fun _ => hsettled'.1) fun _ => hturns').order

end

end Pruned

end HybridHeap
