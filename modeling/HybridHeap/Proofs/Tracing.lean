import HybridHeap.Proofs.Collecting
import HybridHeap.Proofs.Garbage

/-!
# What is reachable

A collector is there to keep what is reachable from the roots: the least set with the roots, the
targets of edges in payloads of its nodes and the values of the weak entries whose key is in it.
-/

namespace HybridHeap

open Collector Act

variable {law : Law} {w : Juncture} {h k : Heap} {n m : NodeId}

namespace Heap

/-- The nodes that are reachable from the roots, through payloads and through the weak table. -/
inductive Reach (h : Heap) : NodeId → Prop where
  | root {n : NodeId} (hn : n ∈ h.rootNodes) : Reach h n
  | edge {n m : NodeId} {p : Payload} (hn : Reach h n) (hp : h.payload? n = some p)
    (hm : m ∈ p.edges) : Reach h m
  | weak {e : WeakEntry} {key value : NodeId} (he : e ∈ h.roots.weak.toList)
    (hkey : e.key = some key) (hvalue : e.value = some value) (hk : Reach h key) : Reach h value

/-- The nodes with storage that are out of reach. -/
def unreached (h : Heap) : Set NodeId := {n | h.isAllocated n = true ∧ ¬h.Reach n}

/-- No node is detached, and no payload is borrowed. -/
structure Whole (h : Heap) : Prop where
  attached : ∀ n, h.isAllocated n = true → h.isDetached n = false
  unborrowed : ∀ n p, h.payload? n = some p → p.borrowed = false

/-- Every registered root source asks for pinning. -/
def Pinning (h : Heap) : Prop :=
  ∀ s, some s ∈ h.roots.external → ∀ source, h.sources[s]? = some source → source.pins = true

/-- Root sources that are not there all ask for pinning. -/
theorem pinning_of_external (hexternal : h.roots.external = #[]) : h.Pinning := by
  intro s hs
  rw [hexternal] at hs
  exact absurd hs (Array.not_mem_empty _)

/-- Where every root source asks for pinning, every root is explicit or pinned. -/
theorem Pinning.rootNodes_eq (hp : h.Pinning) :
    h.rootNodes = h.roots.explicit.toList ++ h.pinned := by
  have hexternal : (h.externalRoots fun _ => true) = h.externalRoots RootSource.pins := by
    refine List.flatMap_congr fun s hs => ?_
    have hmem : some s ∈ h.roots.external := by
      obtain ⟨x, hx, hxs⟩ := List.mem_filterMap.1 hs
      exact Array.mem_toList_iff.1 (hxs ▸ hx)
    cases hsource : h.sources[s]? with
    | none => rfl
    | some source => simp [hp s hmem source hsource]
  unfold rootNodes pinned
  rw [hexternal, List.append_assoc]

/-- No root designates garbage then. -/
theorem Pinning.not_mem_garbage (hp : h.Pinning) (inv : Invariant law w h)
    (hn : n ∈ h.rootNodes) : n ∉ h.garbage := by
  rw [hp.rootNodes_eq] at hn
  rcases List.mem_append.1 hn with hexplicit | hpinned
  · exact not_mem_garbage_of_explicit inv hexplicit
  · exact fun hmem => (reclaimable_of_mem_garbage inv hmem).unpinned hpinned

/-- What is reachable is so in a heap that has the roots, the payloads of what is reachable in both,
and the weak entries whose key is reachable. -/
theorem Reach.carry (hroots : ∀ n ∈ h.rootNodes, n ∈ k.rootNodes)
    (hpayload : ∀ m p, h.Reach m → k.Reach m → h.payload? m = some p → k.payload? m = some p)
    (hweak : ∀ e ∈ h.roots.weak.toList, ∀ key, e.key = some key → h.Reach key →
      e ∈ k.roots.weak.toList) (hn : h.Reach n) : k.Reach n := by
  induction hn with
  | root hn => exact .root (hroots _ hn)
  | @edge a b p ha hp hm ih => exact .edge ih (hpayload a p ha ih hp) hm
  | weak he hkey hvalue hk ih => exact .weak (hweak _ he _ hkey hk) hkey hvalue ih

/-- What is reachable is so in a heap with the same roots that has the payloads of what is reachable
in both. -/
theorem Reach.mono (hroots : k.rootNodes = h.rootNodes) (hweak : k.roots.weak = h.roots.weak)
    (hpayload : ∀ m p, h.Reach m → k.Reach m → h.payload? m = some p → k.payload? m = some p)
    (hn : h.Reach n) : k.Reach n :=
  hn.carry (fun _ hm => hroots ▸ hm) hpayload fun _ he _ _ _ => hweak ▸ he

/-- Reachability depends on the roots and the payloads. -/
theorem Reach.congr (hroots : k.rootNodes = h.rootNodes) (hpayload : k.payload? = h.payload?)
    (hweak : k.roots.weak = h.roots.weak) : h.Reach n ↔ k.Reach n := by
  constructor
  · exact .mono hroots hweak fun _ _ _ _ hp => by rwa [hpayload]
  · exact .mono hroots.symm hweak.symm fun _ _ _ _ hp => by rwa [← hpayload]

/-- What is reachable has storage. -/
theorem Reach.isAllocated (inv : Invariant law w h) (hn : h.Reach n) : h.isAllocated n = true := by
  induction hn with
  | root hn => exact inv.isAllocated_of_mem_rootNodes hn
  | edge _ hp hm _ => exact inv.isAllocated_of_mem_edges hp hm
  | weak he _ hvalue _ _ => exact inv.isAllocated_of_value he hvalue

/-- The nodes with storage are those that are reachable and those that are out of reach. -/
theorem not_mem_unreached (hn : h.isAllocated n = true) : n ∉ h.unreached ↔ h.Reach n := by
  unfold unreached
  simp [hn]

/-- Everything is traced of a node that is neither detached nor borrowed. -/
theorem traced_eq_edges (hn : h.isDetached n = false) {p : Payload} (hp : h.payload? n = some p)
    (hborrowed : p.borrowed = false) : (traced h n).1 = p.edges := by
  unfold traced
  rw [hn, hp]
  dsimp only
  rw [hborrowed]
  rfl

end Heap

namespace Collector

open Marking

/-- Between full collections every attached node is marked, so none is after the flip. -/
theorem unmarked_start (inv : Invariant law w h) (hscarred : w.scarred = false)
    (hguard : w.guard ≠ some .full) (hloose : w.loose = []) (hn : h.isAllocated n = true)
    (hattached : h.isDetached n = false) : (start h.flip).isMarked n = false := by
  obtain ⟨hempty, hmarked⟩ := inv.settled hscarred hguard
  have hlisted := inv.attached n (by simp [hloose]) hn hattached
  rw [hempty] at hlisted
  have hmark := hmarked n (hlisted.resolve_right List.not_mem_nil)
  show ((h.status n).contains .mark == !h.cycle) = false
  rw [hmark]
  cases h.cycle <;> rfl

end Collector

end HybridHeap
