import HybridHeap.Proofs.Tending

/-!
# What a workload builds

Allocating a cell may run a collection first, and may fail. Either way the heap is tended as the
site of the builder says: what is reachable from its roots is kept, and a failure leaves nothing in
hand but what the builder had before. From that each graph of a workload is followed from its first
cell to its last: a list, a cycle, a tree, a weak reference.
-/

namespace HybridHeap

open Collector Act Mutator

/-! ## Tended heaps while a node is built -/

section

variable {law : Law} {w : Juncture} {h k : Heap} {n m : NodeId} {D : Set NodeId} {kind : Kind}
  {p : Payload}

/-- Nothing about a payload keeps collections from being exact. -/
structure Payload.Plain (p : Payload) : Prop where
  unborrowed : p.borrowed = false
  hook : p.hook = none
  hidden : p.hidden = []

theorem Payload.Plain.allEdges (hp : p.Plain) : p.allEdges = p.edges := by
  unfold Payload.allEdges
  rw [hp.hidden, List.append_nil]

/-- Without root sources only the stacks are pinned. -/
theorem Heap.pinned_of_external (hexternal : h.roots.external = #[]) :
    h.pinned = h.stackedRoots := by
  unfold pinned externalRoots
  rw [hexternal]
  exact List.append_nil _

/-- A node that is being built leaves what is reachable as it is. -/
theorem Keeps.build (inv : Invariant law w h) (hexternal : h.roots.external = #[]) :
    Keeps h (h.build kind p) where
  size_le := by
    rw [show (h.build kind p).nodes.size = h.nodes.size + 1 from Array.size_push _]
    exact Nat.le_succ _
  roots := fun n hn => by
    rw [Heap.rootNodes_eq hexternal] at hn
    rw [Heap.rootNodes_eq (h := h.build kind p) hexternal]
    exact hn
  payload := fun n hn => by
    have hlt := Heap.lt_size_of_isAllocated (hn.isAllocated inv)
    rw [h.payload?_build, if_neg (Nat.ne_of_lt hlt)]
  weak := fun e he _ _ _ => he

theorem Heap.Tended.build (ht : h.Tended) (hp : p.Plain) : (h.build kind p).Tended where
  attached := by
    rw [h.isAllocated_build, h.isDetached_build]
    exact ht.attached
  unborrowed := fun n q hq => by
    rw [h.payload?_build] at hq
    split_ifs at hq
    · exact Option.some.inj hq ▸ hp.unborrowed
    · exact ht.unborrowed n q hq
  simple := fun n q hq => by
    rw [h.payload?_build] at hq
    split_ifs at hq
    · exact Option.some.inj hq ▸ ⟨hp.hook, hp.hidden⟩
    · exact ht.simple n q hq
  external := ht.external
  handles := ht.handles
  lost := ht.lost
  counts := by
    rw [h.status_build]
    exact ht.counts
  pins := by
    rw [Heap.pinned_of_external (h := h.build kind p) ht.external]
    exact ht.pinned_eq ▸ ht.pins

theorem Heap.Tended.equip (ht : h.Tended) (hn : n < h.nodes.size) (base : Memory.Address) :
    (h.equip n base).Tended where
  attached := fun m hm => by
    unfold isDetached
    rw [h.isAllocated_equip base hn] at hm
    rw [h.status_equip base hn]
    split_ifs at hm ⊢
    · cases h.cycle <;> rfl
    · exact ht.attached m hm
  unborrowed := fun m q hq => ht.unborrowed m q (h.payload?_equip base m ▸ hq)
  simple := fun m q hq => ht.simple m q (h.payload?_equip base m ▸ hq)
  external := ht.external
  handles := ht.handles
  lost := ht.lost
  counts := fun m => by
    rw [h.status_equip base hn]
    split_ifs
    · rw [Status.count_fresh]
      exact Nat.zero_le _
    · exact ht.counts m
  pins := by
    rw [Heap.pinned_of_external (h := h.equip n base) ht.external]
    exact ht.pinned_eq ▸ ht.pins

theorem Heap.Tended.strip (ht : h.Tended) (n : NodeId) : (h.strip n).Tended where
  attached := fun m hm => by
    unfold isDetached
    rw [h.status_strip]
    exact ht.attached m (h.isAllocated_strip n m ▸ hm)
  unborrowed := fun m q hq => by
    rw [h.payload?_strip] at hq
    split_ifs at hq
    exact ht.unborrowed m q hq
  simple := fun m q hq => by
    rw [h.payload?_strip] at hq
    split_ifs at hq
    exact ht.simple m q hq
  external := ht.external
  handles := ht.handles
  lost := ht.lost
  counts := fun m => by
    rw [h.status_strip]
    exact ht.counts m
  pins := by
    rw [Heap.pinned_of_external (h := h.strip n) ht.external]
    exact ht.pinned_eq ▸ ht.pins

theorem Heap.Tended.lower (ht : h.Tended) (hl : Lowered h k) : k.Tended where
  attached := by
    rw [hl.isAllocated, hl.isDetached]
    exact ht.attached
  unborrowed := by
    rw [hl.payload?]
    exact ht.unborrowed
  simple := by
    rw [hl.payload?]
    exact ht.simple
  external := by
    rw [hl.roots]
    exact ht.external
  handles := hl.handles.trans ht.handles
  lost := hl.lost.trans ht.lost
  counts := fun m => (hl.le m).trans (ht.counts m)
  pins := by
    rw [hl.pinned]
    exact ht.pins

end

namespace Workload

variable {s s' : Site} {h k l : Heap} {n m : NodeId} {D : Set NodeId} {ns : List NodeId}
  {fuel room c : Nat} {e : Failure} {p : Payload}

/-- A collection leaves the roots but for weak entries that expire. -/
theorem Site.Describes.purge (hd : s.Describes h.roots) (hp : Purges D h k) :
    s.Describes k.roots := by
  classical
  rw [hp.roots]
  have hlength := congrArg List.length
    (toList_expire_of_entry (fun e => decide (e.KeyedIn D)) h.roots.weak)
  rw [List.length_map] at hlength
  exact { hd with weak := hlength.trans hd.weak }

/-! ## What building adds -/

/-- What was reachable before is kept, and `c` nodes have been added, with storage unless there were
nodes without before. -/
structure Grows (c : Nat) (h k : Heap) : Prop extends Keeps h k where
  size : k.nodes.size = h.nodes.size + c
  born : (∀ n < h.nodes.size, h.stage n ≠ .unborn) → ∀ n < k.nodes.size, k.stage n ≠ .unborn

namespace Grows

theorem refl (h : Heap) : Grows 0 h h := { Keeps.refl h with size := rfl, born := id }

theorem trans {d : Nat} (h₁ : Grows c h k) (h₂ : Grows d k l) : Grows (c + d) h l :=
  { h₁.toKeeps.trans h₂.toKeeps with
    size := by rw [h₂.size, h₁.size, Nat.add_assoc]
    born := fun hborn => h₂.born (h₁.born hborn) }

/-- A step of a builder that keeps the roots there were at first adds nothing. -/
theorem edit (hg : Grows c h k) (hth : Tends s h) (htl : Tends s' l) (hl : Edits D ns k l)
    (hD : ∀ n ∈ D, h.nodes.size ≤ n) (hroots : ∀ n ∈ s.rootNodes, n ∈ s'.rootNodes) :
    Grows c h l where
  size_le := hl.size ▸ hg.size_le
  roots := fun n hn => htl.mem_rootNodes.2 (hroots n (hth.mem_rootNodes.1 hn))
  payload := fun n hn => by
    have hlt := Heap.lt_size_of_isAllocated (hn.isAllocated hth.inv)
    rw [hl.payload n fun hmem => Nat.not_le.2 hlt (hD n hmem), hg.payload n hn]
  weak := fun e he key hkey hn => hl.weak e (hg.weak e he key hkey hn)
  size := hl.size.trans hg.size
  born := fun hborn n hn => by
    rw [hl.stage]
    exact hg.born hborn n (hl.size ▸ hn)

end Grows

/-! ## Failing -/

/-- Building may fail because an adaptive trigger does not fit in a word, or because the limit on
memory is reached. What is left is tended as the site says, but for finalizers that have been given
or discarded meanwhile. -/
structure Foiled (s : Site) (room : Nat) (e : Failure) (k : Heap) : Prop where
  cause : e = .overflow ∧ k.Strained ∨ (∃ size, e = .outOfMemory size) ∧ k.memory.store.limit ≠ none
  tends : ∃ given discarded, Tends (s.settled given discarded) k
  size_le : k.nodes.size ≤ room

/-- Dropping what a builder still holds. -/
theorem Foiled.unwind {x : Act Unit} (hf : Foiled s room e k)
    (hx : ∀ given discarded, Tends (s.settled given discarded) k → Returns x k fun _ l =>
      (∃ given discarded, Tends (s'.settled given discarded) l) ∧ ∃ D ns, Touches D ns k l) :
    Returns x k fun _ l => Foiled s' room e l := by
  obtain ⟨given, discarded, ht⟩ := hf.tends
  refine (hx given discarded ht).mono ?_
  rintro _ l ⟨ht', D, ns, hl⟩
  refine ⟨hf.cause.imp (fun hc => ⟨hc.1, hc.2.of_gauge hl.gauge⟩) fun hc => ⟨hc.1, ?_⟩, ht',
    hl.size ▸ hf.size_le⟩
  rw [hl.limit]
  exact hc.2

/-- What an operation that fails leaves in hand is dropped. -/
theorem leads_onFailure_foiled {α : Type} {x : Act α} {c : Act Unit} {Q : α → Heap → Prop}
    {E : Failure → Heap → Prop} (hx : Leads x h Q E)
    (hc : ∀ e k, E e k → Returns c k fun _ l => Foiled s room e l) :
    Leads (onFailure x c) h Q (Foiled s room) := by
  rw [leads_onFailure]
  exact hx.mono (fun _ _ hpost => hpost) fun e k hf => (hc e k hf).leads fun _ _ hl => hl

/-- What an operation leaves in hand is dropped whether it fails or not. -/
theorem leads_ensuring_foiled {α : Type} {x : Act α} {c : Act Unit} {Q : α → Heap → Prop}
    {E : Failure → Heap → Prop} (hx : Leads x h (fun a k => Returns c k fun _ => Q a) E)
    (hc : ∀ e k, E e k → Returns c k fun _ l => Foiled s room e l) :
    Leads (ensuring x c) h Q (Foiled s room) := by
  rw [leads_ensuring]
  exact hx.mono (fun _ _ hpost => hpost.leads fun _ _ hl => hl) fun e k hf =>
    (hc e k hf).leads fun _ _ hl => hl

/-! ## Cells -/

/-- What a cell holds. -/
def content (first second : Option NodeId) (tag : Nat) : Payload :=
  { places := [first, second], hidden := [], tag, borrowed := false, hook := none }

theorem plain_content (first second : Option NodeId) (tag : Nat) :
    (content first second tag).Plain := ⟨rfl, rfl, rfl⟩

/-- The cell `n` has been allocated and holds `p`. References to `ns` have been taken since. -/
structure Celled (s : Site) (p : Payload) (ns : List NodeId) (h : Heap) (n : NodeId) (k : Heap) :
    Prop where
  tends : Tends (s.holding ns) k
  grows : Grows 1 h k
  eq : n = h.nodes.size
  allocated : k.isAllocated n = true
  payload : k.payload? n = some p
  count : ∀ m, (k.status m).count ≤ (h.status m).count + ns.count m

theorem idle_runner : runner.Idle := fun _ => rfl

theorem leaves_runner (program : Program) : Leaves Heap.gauge (runner program) := .pure _

section

variable (hk : Purged .tidying { s.juncture with building := [h.nodes.size] } (h.build .cons p) k)
include hk

/-- The node that is being built has kept its payload. -/
theorem payload_building :
    k.isAllocated h.nodes.size = false ∧ k.payload? h.nodes.size = some p := by
  obtain ⟨D, hpurges⟩ := hk.purges
  have hout : (h.build .cons p).isAllocated h.nodes.size = false := by
    rw [h.isAllocated_build, Bool.eq_false_iff]
    exact fun halloc => Nat.lt_irrefl _ (Heap.lt_size_of_isAllocated halloc)
  obtain ⟨hout', hpayload⟩ := hpurges.payload_of_unallocated hout
  rw [h.payload?_build, if_pos rfl] at hpayload
  exact ⟨hout', hpayload⟩

variable (ht : Tends (s.holding p.edges) h) (hp : p.Plain)
include ht hp

/-- The node that is being built can be given storage. -/
theorem equip_celled {base : Memory.Address} (hbase : k.memory.admit? Kind.cons.size = some base) :
    Celled s p [] h h.nodes.size (k.equip h.nodes.size base) := by
  obtain ⟨D, hpurges⟩ := hk.purges
  obtain ⟨hout, hpayload⟩ := payload_building hk
  have ht₁ : (h.build .cons p).Tended := ht.toTended.build hp
  have ht₂ : k.Tended := hpurges.tended ht₁
  have hsize : k.nodes.size = h.nodes.size + 1 := hpurges.size.trans (Array.size_push _)
  have hlt : h.nodes.size < k.nodes.size := by omega
  -- Of the older nodes some may have been freed by the collections in between; none came back.
  have hstage : ∀ m < h.nodes.size,
      (k.equip h.nodes.size base).stage m = .freed ∨
        (k.equip h.nodes.size base).stage m = h.stage m := by
    intro m hm
    rw [k.stage_equip base hlt, if_neg (Nat.ne_of_lt hm)]
    by_cases hmem : m ∈ D
    · exact .inl (hpurges.freed m hmem)
    · exact .inr ((hpurges.stage m hmem).trans (congrFun (h.stage_build .cons p) m))
  have hkeeps : Keeps k (k.equip h.nodes.size base) :=
    { size_le := (k.size_nodes_modifyNode h.nodes.size _).ge
      roots := fun m hm => by
        rw [Heap.rootNodes_eq ht₂.external] at hm
        rw [Heap.rootNodes_eq (h := k.equip h.nodes.size base) ht₂.external]
        exact hm
      payload := fun m _ => k.payload?_equip base m
      weak := fun _ he _ _ _ => he }
  have hroots : s.Describes k.roots :=
    Site.Describes.purge (h := h.build .cons p) { ht.roots with } hpurges
  have hkind : k.kind h.nodes.size = .cons := by
    rw [hpurges.kind]
    unfold Heap.kind
    rw [h.getElem?_build, if_pos rfl]
    rfl
  have hstanding := hk.standing
  have htally : k.tally = s.tally := (Heap.tally_of_standing hstanding).trans ht.tally
  have hlimit : (k.equip h.nodes.size base).memory.store.limit = k.memory.store.limit :=
    (Memory.Allocator.limit_setMark _ _).trans (Memory.Allocator.limit_push _ _ _)
  constructor
  · exact
      { ht₂.equip hlt base with
        inv := hk.inv.equip (w := s.juncture) List.not_mem_nil (hkind ▸ hbase)
        roots := hroots
        tally := by
          unfold Heap.tally
          rw [hlimit]
          exact htally
        ran := by
          have hran : finalized k = k.chronicle.started.length := by
            have hfinalized : finalized k = finalized h := congrArg Standing.finalized hstanding
            have hstarted : k.chronicle.started = h.chronicle.started :=
              congrArg Standing.started hstanding
            rw [hfinalized, hstarted]
            exact ht.ran
          exact hran
        given_le := by
          have hgiven : s.tally.given ≤ h.nodes.size := ht.given_le
          rw [show (k.equip h.nodes.size base).nodes.size = _ from k.size_nodes_modifyNode _ _]
          exact hgiven.trans hlt.le
        limited := fun limit hsome hword => by
          have hpeak : k.chronicle.peak = h.chronicle.peak := congrArg Standing.peak hstanding
          have hkept := ht.limited limit hsome hword
          have hlimit' : k.memory.store.limit = some limit :=
            (congrArg Tally.limit htally).trans hsome
          have hpush := hk.inv.bytes_push_le rfl Kind.cons.size_pos hbase hlimit' hword
          rw [← hkind] at hpush
          exact Nat.max_le.2 ⟨hpeak ▸ hkept, hpush⟩ }
  · exact
      { ((Keeps.build ht.inv ht.external).trans (hpurges.keeps ht₁)).trans hkeeps with
        size := (k.size_nodes_modifyNode _ _).trans hsize
        born := fun hborn m hm => by
          rw [show (k.equip h.nodes.size base).nodes.size = _ from k.size_nodes_modifyNode _ _,
            hsize] at hm
          rcases Nat.lt_succ_iff_lt_or_eq.1 hm with hm | rfl
          · rcases hstage m hm with hfreed | hsame
            · rw [hfreed]
              exact Stage.noConfusion
            · rw [hsame]
              exact hborn m hm
          · rw [k.stage_equip base hlt, if_pos rfl]
            exact Stage.noConfusion }
  · rfl
  · rw [k.isAllocated_equip base hlt, if_pos rfl]
  · exact (k.payload?_equip base _).trans hpayload
  · intro m
    rw [k.status_equip base hlt]
    split_ifs
    · rw [Status.count_fresh]
      exact Nat.zero_le _
    · have hle := hpurges.le m
      rw [h.status_build] at hle
      exact hle

/-- Without storage the payload is dropped again. -/
theorem dropPayload_foiled (hroom : h.nodes.size + 1 ≤ room)
    (he : e = .overflow ∧ k.Strained ∨
      (∃ size, e = .outOfMemory size) ∧ k.memory.store.limit ≠ none) :
    Returns (dropPayload runner h.nodes.size) k fun _ l => Foiled s room e l := by
  obtain ⟨D, hpurges⟩ := hk.purges
  obtain ⟨hout, hpayload⟩ := payload_building hk
  have ht₂ : k.Tended := hpurges.tended (ht.toTended.build hp)
  have hsize : k.nodes.size = h.nodes.size + 1 := hpurges.size.trans (Array.size_push _)
  have hroots : s.Describes k.roots :=
    Site.Describes.purge (h := h.build .cons p) { ht.roots with } hpurges
  have hdrop := (dropPayload_quiet idle_runner ht₂.quiet hk.inv rfl [] []
    (by simp) (by simp) (by simp [Site.juncture, Juncture.rest])
    (by simp [Site.juncture, Juncture.rest]) (by rw [hpayload]; rfl) (by rw [hout]; simp)).and
    ((leaves_dropPayload leaves_runner h.nodes.size).leads k)
  refine hdrop.mono ?_ fun _ _ he => he.1
  rintro _ l ⟨⟨inv, events, history, hl⟩, hgauge⟩
  have hstanding : l.standing = h.standing := (congrArg Gauge.standing hgauge).trans hk.standing
  have hsize' : l.nodes.size = h.nodes.size + 1 :=
    hl.size_nodes.trans ((k.size_nodes_modifyNode _ _).trans hsize)
  have htended : l.Tended :=
    Heap.Tended.lower (h := { k.strip h.nodes.size with events, history })
      { ht₂.strip h.nodes.size with } hl
  have hroots' : s.Describes l.roots := by
    rw [hl.roots]
    exact hroots
  have htl : Tends s l := ht.stand htended inv hroots' rfl hstanding (by omega)
  have hmemory : l.memory = k.memory := congrArg Gauge.memory hgauge
  refine ⟨he.imp (fun hc => ⟨hc.1, ?_⟩) fun hc => ⟨hc.1, ?_⟩, ⟨_, _, htl⟩, by omega⟩
  · have hchronicle : l.chronicle = k.chronicle := congrArg Gauge.chronicle hgauge
    refine hc.2.of_gauge ?_
    rw [hgauge, hchronicle]
    rfl
  · rw [hmemory]
    exact hc.2

end

/-- Allocating a cell whose edges are in flight. -/
theorem allocate_tends (ht : Tends (s.holding p.edges) h) (hanchored : (s.holding p.edges).Anchored)
    (hp : p.Plain) (hfuel : 2 * room < fuel) (hroom : h.nodes.size + 1 ≤ room) :
    Leads (Collector.allocate runner fuel .cons p) h (fun n k => Celled s p [] h n k)
      (Foiled s room) := by
  have hbuilt : Invariant .tidying { s.juncture with building := [h.nodes.size] }
      (h.build .cons p) := by
    refine Invariant.build (w := s.juncture) ?_ .cons
    rw [hp.allEdges]
    exact ht.inv
  have ht₁ : (h.build .cons p).Tended := ht.toTended.build hp
  have hsize : (h.build .cons p).nodes.size = h.nodes.size + 1 := Array.size_push _
  have hkind : (h.build .cons p).kind h.nodes.size = .cons := by
    unfold Heap.kind
    rw [h.getElem?_build, if_pos rfl]
    rfl
  have hkeeps : Keeps h (h.build .cons p) := .build ht.inv ht.external
  have hreach : ∀ n ∈ p.edges ++ s.flight, (h.build .cons p).Reach n := fun n hn =>
    hkeeps.reach (ht.reach (hanchored n hn))
  have hin : Juncture.InReach { s.juncture with building := [h.nodes.size] } (h.build .cons p) := by
    constructor
    · exact fun n hn => hreach n (List.mem_append_right _ hn)
    · intro m hm n hn
      obtain rfl := List.mem_singleton.1 hm
      rw [Heap.edges_eq, h.payload?_build, if_pos rfl] at hn
      change n ∈ p.allEdges at hn
      rw [hp.allEdges] at hn
      exact hreach n (List.mem_append_left _ hn)
  unfold Collector.allocate place
  simp only [leads_bind, leads_reserve, leads_onFailure, leads_pure, leads_view]
  -- The edges of the new payload are reachable, so the collections that come first spare them.
  refine (collectIfDue_purges idle_runner leaves_runner rfl ht₁ (s.steady.build _) rfl hbuilt
    (by omega) rfl hin).mono ?_ ?_
  · intro _ k hk
    obtain ⟨D, hpurges⟩ := hk.purges
    rw [hpurges.kind, hkind, if_neg (by decide)]
    cases hbase : k.memory.admit? Kind.cons.size with
    | none =>
      simp only [leads_bind, leads_view, hbase, leads_throw]
      refine (dropPayload_foiled hk ht hp hroom (.inr ⟨⟨_, rfl⟩, fun hlimit => ?_⟩)).leads
        fun _ _ hl => hl
      have hsome := Memory.Allocator.admit?_isSome hlimit Kind.cons.size_le_systemLimit
      rw [hbase] at hsome
      cases hsome
    | some base =>
      simp only [leads_bind, leads_view, hbase]
      rw [leads_install]
      exact equip_celled hk ht hp hbase
  · rintro e k ⟨he, hstrained, hk⟩
    exact (dropPayload_foiled hk ht hp hroom (.inl ⟨he, hstrained⟩)).leads fun _ _ hl => hl

/-- A node that has just been allocated has no count but for the references taken since. -/
theorem Celled.count_new (hc : Celled s p ns h n k) : (k.status n).count ≤ ns.count n := by
  have hle := hc.count n
  rw [Heap.status_of_le hc.eq.ge, Status.count_fresh] at hle
  omega

/-- What was there before has had no count added but for the references taken since. -/
theorem Celled.count_old (hc : Celled s p [n] h n k) (hm : m < h.nodes.size) :
    (k.status m).count ≤ (h.status m).count := by
  have hle := hc.count m
  have hne : m ≠ n := by
    rw [hc.eq]
    exact Nat.ne_of_lt hm
  rw [List.count_singleton, if_neg (by simpa using hne.symm)] at hle
  exact hle

theorem cell_tends {first second : Option NodeId} {tag : Nat}
    (ht : Tends (s.holding (content first second tag).edges) h)
    (hanchored : (s.holding (content first second tag).edges).Anchored)
    (hfuel : 2 * room < fuel) (hroom : h.nodes.size + 1 ≤ room) :
    Leads (cell fuel first second tag) h (fun n k => Celled s (content first second tag) [] h n k)
      (Foiled s room) :=
  allocate_tends ht hanchored (plain_content first second tag) hfuel hroom

theorem cellEdge_tends {first second : Option NodeId} {tag : Nat}
    (ht : Tends (s.holding (content first second tag).edges) h)
    (hanchored : (s.holding (content first second tag).edges).Anchored)
    (hfuel : 2 * room < fuel) (hroom : h.nodes.size + 1 ≤ room) :
    Leads (cellEdge fuel first second tag) h
      (fun n k => Celled s (content first second tag) [n] h n k) (Foiled s room) := by
  unfold cellEdge
  rw [leads_bind]
  refine (cell_tends ht hanchored hfuel hroom).imp fun n k hc => ?_
  rw [leads_bind]
  have hcount : (k.status n).count ≤ 1 := hc.count_new.trans (Nat.zero_le 1)
  refine (increment_tends hc.tends hc.allocated hcount).leads ?_
  rintro _ l ⟨htl, hl⟩
  have hth : Tends (s.holding (content first second tag).edges) h := ht
  exact
    { tends := htl
      grows := hc.grows.edit hth htl hl (fun _ hm => hm.elim) fun _ hm => hm
      eq := hc.eq
      allocated := (congrFun hl.isAllocated n).trans hc.allocated
      payload := (hl.payload n (Set.notMem_empty n)).trans hc.payload
      count := fun m => (hl.count m).trans (Nat.add_le_add_right (hc.count m) _) }

theorem emptyCell_tends {tag : Nat} (ht : Tends s h) (hanchored : s.Anchored)
    (hfuel : 2 * room < fuel) (hroom : h.nodes.size + 1 ≤ room) :
    Leads (cell fuel none none tag) h (fun n k => Celled s (content none none tag) [] h n k)
      (Foiled s room) :=
  have ht' : Tends (s.holding (content none none tag).edges) h := ht
  cell_tends ht' hanchored hfuel hroom

theorem emptyEdge_tends {tag : Nat} (ht : Tends s h) (hanchored : s.Anchored)
    (hfuel : 2 * room < fuel) (hroom : h.nodes.size + 1 ≤ room) :
    Leads (cellEdge fuel none none tag) h (fun n k => Celled s (content none none tag) [n] h n k)
      (Foiled s room) :=
  have ht' : Tends (s.holding (content none none tag).edges) h := ht
  cellEdge_tends ht' hanchored hfuel hroom

/-! ## Lists -/

/-- A stack root more roots no less. -/
theorem Site.rootNodes_push (s : Site) (n : NodeId) :
    ∀ m ∈ s.rootNodes, m ∈ ({ s with stack := s.stack.push n } : Site).rootNodes := by
  intro m hm
  unfold Site.rootNodes at hm ⊢
  simp only [List.mem_append, Array.toList_push] at hm ⊢
  tauto

/-- After a failure the topmost stack root is dropped. -/
theorem Foiled.dropStackRoot (hf : Foiled { s with stack := s.stack.push n } room e k) :
    Returns (dropStackRoot n s.stack.size) k fun _ l => Foiled s room e l := by
  refine hf.unwind fun given discarded htk => ?_
  refine (dropStackRoot_tends (s := s.settled given discarded) htk).mono ?_
  rintro _ l ⟨htl, hl⟩
  exact ⟨⟨given, discarded, htl⟩, _, _, hl.toTouches⟩

/-- Putting cells in front of a list whose head is the topmost stack root. -/
theorem extend_tends {h₀ : Heap} {head tag : Nat} (count : Nat) (ht₀ : Tends s h₀)
    (hg : Grows c h₀ h) (ht : Tends { s with stack := s.stack.push head } h)
    (hcount : (h.status head).count = 0) (hanchored : s.Anchored) (hfuel : 2 * room < fuel)
    (hroom : h.nodes.size + count ≤ room) :
    Leads (extend fuel s.stack.size head count tag) h
      (fun n k => Tends { s with stack := s.stack.push n } k ∧ Grows (c + count) h₀ k ∧
        (k.status n).count = 0) (Foiled s room) := by
  induction count generalizing c h head tag with
  | zero => exact ⟨ht, hg, hcount⟩
  | succ count ih =>
    have hanchored' : Site.Anchored { s with stack := s.stack.push head } := fun n hn =>
      s.rootNodes_push head n (hanchored n hn)
    have hhead : h.isAllocated head = true := ht.isAllocated (by simp [Site.rootNodes])
    unfold extend
    rw [leads_bind]
    refine leads_onFailure_foiled ((emptyEdge_tends ht hanchored' hfuel (by omega)).imp
      fun n k hc => ?_) fun _ _ hf => hf.dropStackRoot
    -- The new cell is in front of the old head before it takes its place on the stack.
    have hhead' : k.isAllocated head = true :=
      hc.tends.isAllocated (by simp [Site.rootNodes, Site.holding])
    have hcount₁ := hc.count_old (Heap.lt_size_of_isAllocated hhead)
    rw [leads_bind]
    refine (increment_tends hc.tends hhead' (by omega)).leads ?_
    rintro _ k₁ ⟨ht₁, hk₁⟩
    rw [leads_bind]
    have hpayload : k₁.payload? n = some (content none none tag) :=
      (hk₁.payload n (Set.notMem_empty n)).trans hc.payload
    refine (fill_tends ht₁ hpayload rfl).leads ?_
    rintro _ k₂ ⟨ht₂, hk₂⟩
    rw [leads_bind, leads_update]
    have hn : k₂.isAllocated n = true := ht₂.isAllocated_of_holding List.mem_cons_self
    obtain ⟨ht₃, hk₃⟩ := replaceTop_tends (s := s.holding [n]) ht₂ hn
    rw [leads_bind]
    refine (decrement_tends (s := { s with stack := s.stack.push n }) ht₃).leads ?_
    rintro _ k₄ ⟨ht₄, hk₄, hless⟩
    have hedits := ((hk₁.trans hk₂).trans hk₃).trans hk₄
    have hgrows : Grows (c + 1) h₀ k₄ := by
      refine (hg.trans hc.grows).edit ht₀ ht₄ hedits (fun m hm => ?_) (s.rootNodes_push n)
      obtain rfl : m = n := by simpa using hm
      rw [hc.eq, hg.size]
      exact Nat.le_add_right _ _
    have hnew : (k₄.status n).count = 0 := by
      have hcount₂ := ((hk₁.trans hk₂).trans hk₃).count n
      have hcount₀ := hc.count_new
      have hne : head ≠ n := by
        rw [hc.eq]
        exact Nat.ne_of_lt (Heap.lt_size_of_isAllocated hhead)
      simp [hne] at hcount₂ hcount₀
      omega
    have hroom' : k₄.nodes.size + count ≤ room := by
      rw [hedits.size, hc.grows.size]
      omega
    refine (ih hgrows ht₄ hnew hroom').imp ?_
    rintro m l ⟨htl, hgl, hcount'⟩
    exact ⟨htl, Nat.add_right_comm c count 1 ▸ hgl, hcount'⟩

/-- Building a list leaves it in flight. -/
theorem list_tends {length : Nat} (ht : Tends s h) (hanchored : s.Anchored) (hstack : s.HasRoom 1)
    (hfuel : 2 * room < fuel) (hroom : h.nodes.size + length ≤ room) :
    Leads (list fuel length) h
      (fun head k => Tends (s.holding head.toList) k ∧ Grows length h k) (Foiled s room) := by
  cases length with
  | zero => exact ⟨ht, .refl h⟩
  | succ length =>
    unfold list
    rw [leads_bind]
    refine (emptyCell_tends ht hanchored hfuel (by omega)).imp fun first k hc => ?_
    rw [leads_bind]
    refine (newStackRoot_tends hc.tends hc.allocated hstack).leads ?_
    rintro index k₁ ⟨rfl, ht₁, hk₁⟩
    rw [leads_bind]
    have hg : Grows 1 h k₁ :=
      hc.grows.edit ht ht₁ hk₁ (fun _ hm => hm.elim) (s.rootNodes_push first)
    have hcount : (k₁.status first).count = 0 :=
      Nat.le_zero.1 ((hk₁.count first).trans hc.count_new)
    have hroom' : k₁.nodes.size + length ≤ room := by
      rw [hg.size]
      omega
    refine (extend_tends length ht hg ht₁ hcount hanchored hfuel hroom').imp ?_
    rintro head k₂ ⟨ht₂, hg₂, hcount₂⟩
    have hhead : k₂.isAllocated head = true := ht₂.isAllocated (by simp [Site.rootNodes])
    rw [leads_bind]
    refine (increment_tends ht₂ hhead (by omega)).leads ?_
    rintro _ k₃ ⟨ht₃, hk₃⟩
    rw [leads_bind]
    refine (dropStackRoot_tends (s := s.holding [head]) ht₃).leads ?_
    rintro _ k₄ ⟨ht₄, hk₄⟩
    refine ⟨ht₄, ?_⟩
    have hall := hg₂.edit ht ht₄ (hk₃.trans hk₄) (fun m hm => by simp at hm) fun _ hm => hm
    exact Nat.add_comm 1 length ▸ hall

/-- Building lists and dropping them. -/
theorem buildLists_tends {length : Nat} (count : Nat) (ht : Tends s h) (hanchored : s.Anchored)
    (hstack : s.HasRoom 1) (hfuel : 2 * room < fuel)
    (hroom : h.nodes.size + count * length ≤ room) :
    Leads (buildLists fuel length count) h (fun _ k => Tends s k ∧ Grows (count * length) h k)
      (Foiled s room) := by
  induction count generalizing h with
  | zero =>
    rw [Nat.zero_mul]
    exact ⟨ht, .refl h⟩
  | succ count ih =>
    rw [Nat.succ_mul] at hroom
    unfold buildLists
    rw [leads_bind]
    refine (list_tends ht hanchored hstack hfuel (by omega)).imp ?_
    rintro head k ⟨htk, hg⟩
    -- Whether there is a list at all, dropping it leaves what the rest builds on.
    have hrest : ∀ l, Tends s l → Grows length h l → Leads (buildLists fuel length count) l
        (fun _ k => Tends s k ∧ Grows ((count + 1) * length) h k) (Foiled s room) := by
      intro l htl hgl
      have hroom' : l.nodes.size + count * length ≤ room := by
        rw [hgl.size]
        omega
      refine (ih htl hroom').imp ?_
      rintro _ k ⟨htk, hgk⟩
      refine ⟨htk, ?_⟩
      rw [Nat.succ_mul, Nat.add_comm]
      exact hgl.trans hgk
    cases head with
    | none => exact hrest k htk hg
    | some head =>
      rw [leads_bind]
      refine (decrement_tends htk).leads ?_
      rintro _ l ⟨htl, hl, -⟩
      exact hrest l htl (hg.edit ht htl hl (fun _ hm => hm.elim) fun _ hm => hm)

/-! ## Cycles -/

/-- The edges of a cell are anchored if they are rooted. -/
theorem Site.Anchored.holding (hs : s.Anchored) (hns : ∀ n ∈ ns, n ∈ s.rootNodes) :
    (s.holding ns).Anchored := by
  intro n hn
  rcases List.mem_append.1 hn with hn | hn
  · exact hns n hn
  · exact hs n hn

theorem Site.Anchored.push (hs : s.Anchored) (n : NodeId) :
    Site.Anchored { s with stack := s.stack.push n } := fun m hm =>
  s.rootNodes_push n m (hs m hm)

/-- Building a cycle leaves nothing in hand. -/
theorem cycle_tends {tag : Nat} (ht : Tends s h) (hanchored : s.Anchored) (hstack : s.HasRoom 1)
    (hfuel : 2 * room < fuel) (hroom : h.nodes.size + 2 ≤ room) :
    Leads (cycle fuel tag) h (fun _ k => Tends s k ∧ Grows 2 h k) (Foiled s room) := by
  unfold cycle
  rw [leads_bind]
  refine (emptyCell_tends ht hanchored hfuel (by omega)).imp fun a k hc => ?_
  rw [leads_bind]
  refine (newStackRoot_tends hc.tends hc.allocated hstack).leads ?_
  rintro index k₁ ⟨rfl, ht₁, hk₁⟩
  refine leads_ensuring_foiled (E := Foiled { s with stack := s.stack.push a } room) ?_
    fun _ _ hf => hf.dropStackRoot
  have hcount : (k₁.status a).count ≤ 0 := (hk₁.count a).trans hc.count_new
  have ha : k₁.isAllocated a = true := (congrFun hk₁.isAllocated a).trans hc.allocated
  rw [leads_bind]
  refine (increment_tends ht₁ ha (by omega)).leads ?_
  rintro _ k₂ ⟨ht₂, hk₂⟩
  -- The stack root keeps the first cell while the second is allocated.
  have hroot : a ∈ Site.rootNodes { s with stack := s.stack.push a } := by simp [Site.rootNodes]
  have hg : Grows 1 h k₂ :=
    hc.grows.edit ht ht₂ (hk₁.trans hk₂) (fun m hm => by simp at hm) (s.rootNodes_push a)
  have hsize := hg.size
  have hedge : Tends (Site.holding { s with stack := s.stack.push a }
    (content (some a) none tag).edges) k₂ := ht₂
  have hanchored' := (hanchored.push a).holding fun m hm => List.mem_singleton.1 hm ▸ hroot
  rw [leads_bind]
  refine (cellEdge_tends hedge hanchored' hfuel (by omega)).imp fun b k₃ hb => ?_
  have hpayload : k₃.payload? a = some (content none none tag) := by
    rw [hb.grows.payload a (ht₂.reach hroot), hk₂.payload a (Set.notMem_empty a),
      hk₁.payload a (Set.notMem_empty a), hc.payload]
  refine (fill_tends hb.tends hpayload rfl).leads ?_
  rintro _ k₄ ⟨ht₄, hk₄⟩
  refine (dropStackRoot_tends ht₄).mono ?_
  rintro _ k₅ ⟨ht₅, hk₅⟩
  refine ⟨ht₅, (hg.trans hb.grows).edit ht ht₅ (hk₄.trans hk₅) (fun m hm => ?_) fun _ hm => hm⟩
  obtain rfl : m = a := by simpa using hm
  exact hc.eq.ge

/-- Building cycles leaves nothing in hand. -/
theorem buildCycles_tends {tag : Nat} (count : Nat) (ht : Tends s h) (hanchored : s.Anchored)
    (hstack : s.HasRoom 1) (hfuel : 2 * room < fuel) (hroom : h.nodes.size + 2 * count ≤ room) :
    Leads (buildCycles fuel count tag) h (fun _ k => Tends s k ∧ Grows (2 * count) h k)
      (Foiled s room) := by
  induction count generalizing h tag with
  | zero => exact ⟨ht, .refl h⟩
  | succ count ih =>
    unfold buildCycles
    rw [leads_bind]
    refine (cycle_tends ht hanchored hstack hfuel (by omega)).imp ?_
    rintro _ k ⟨htk, hg⟩
    have hsize := hg.size
    refine (ih htk (by omega)).imp ?_
    rintro _ l ⟨htl, hgl⟩
    refine ⟨htl, ?_⟩
    rw [Nat.mul_succ, Nat.add_comm]
    exact hg.trans hgl

/-! ## Weak references -/

/-- Making a weak reference leaves it in hand, with a finalizer given. -/
theorem weakPair_tends {tag : Nat} (ht : Tends s h) (hanchored : s.Anchored)
    (hstack : s.HasRoom 1) (hfuel : 2 * room < fuel) (hroom : h.nodes.size + 2 ≤ room) :
    Leads (weakPair fuel tag) h (fun slot k => Tends (s.referringTo slot) k ∧ Grows 2 h k)
      (Foiled s room) := by
  unfold weakPair
  rw [leads_bind]
  refine (emptyCell_tends ht hanchored hfuel (by omega)).imp fun key k hc => ?_
  rw [leads_bind]
  refine (newStackRoot_tends hc.tends hc.allocated hstack).leads ?_
  rintro index k₁ ⟨rfl, ht₁, hk₁⟩
  refine leads_ensuring_foiled (E := Foiled { s with stack := s.stack.push key } room) ?_
    fun _ _ hf => hf.dropStackRoot
  have hg : Grows 1 h k₁ :=
    hc.grows.edit ht ht₁ hk₁ (fun _ hm => hm.elim) (s.rootNodes_push key)
  have hsize := hg.size
  rw [leads_bind]
  refine (emptyEdge_tends ht₁ (hanchored.push key) hfuel (by omega)).imp fun value k₂ hv => ?_
  have hroot : key ∈ Site.rootNodes { s with stack := s.stack.push key } := by
    simp [Site.rootNodes]
  have hg₂ : Grows 2 h k₂ := hg.trans hv.grows
  -- Whether the value refers to the key or not, the entry is made of both.
  have hinsert : ∀ l D ms, Tends (Site.holding { s with stack := s.stack.push key } [value]) l →
      Edits D ms k₂ l → (∀ m ∈ D, h.nodes.size ≤ m) →
      Leads (insertWeak key (some value) (some ("", []))) l
        (fun slot k => Returns (dropStackRoot key s.stack.size) k fun _ l =>
          Tends (s.referringTo slot) l ∧ Grows 2 h l)
        (Foiled { s with stack := s.stack.push key } room) := by
    intro l D ms htl hl hD
    have hkey : l.isAllocated key = true := htl.isAllocated hroot
    have hgiven : s.tally.given < l.nodes.size := by
      have hle := ht.given_le
      rw [hl.size, hg₂.size]
      omega
    refine (insertWeak_tends htl hkey hgiven).leads ?_
    rintro slot k₃ ⟨ht₃, hk₃⟩
    refine (dropStackRoot_tends (s := s.referringTo slot) ht₃).mono ?_
    rintro _ k₄ ⟨ht₄, hk₄⟩
    refine ⟨ht₄, hg₂.edit ht ht₄ ((hl.trans hk₃).trans hk₄) (fun m hm => ?_) fun _ hm => hm⟩
    exact hD m (by simpa using hm)
  split
  · have hkey : k₂.isAllocated key = true := hv.tends.isAllocated hroot
    have hcount : (k₂.status key).count ≤ 1 := by
      have hold : key < k₁.nodes.size := by
        rw [hk₁.size]
        exact Heap.lt_size_of_isAllocated hc.allocated
      have hle := (hv.count_old hold).trans ((hk₁.count key).trans hc.count_new)
      exact hle.trans (Nat.zero_le 1)
    rw [leads_bind]
    refine (increment_tends hv.tends hkey hcount).leads ?_
    rintro _ k₃ ⟨ht₃, hk₃⟩
    rw [leads_bind]
    have hpayload : k₃.payload? value = some (content none none tag) :=
      (hk₃.payload value (Set.notMem_empty value)).trans hv.payload
    refine (fill_tends ht₃ hpayload rfl).leads ?_
    rintro _ k₄ ⟨ht₄, hk₄⟩
    refine hinsert k₄ _ _ ht₄ (hk₃.trans hk₄) fun m hm => ?_
    obtain rfl : m = value := by simpa using hm
    rw [hv.eq]
    exact hg.size_le
  · exact hinsert k₂ ∅ [] hv.tends (.refl k₂) fun _ hm => hm.elim

/-- Making weak references leaves them in hand, each with a finalizer given. -/
theorem buildWeak_tends {slots : List Nat} {tag : Nat} (count : Nat) (ht : Tends s h)
    (hslots : s.referring = slots.reverse) (hanchored : s.Anchored) (hstack : s.HasRoom 1)
    (hfuel : 2 * room < fuel) (hroom : h.nodes.size + 2 * count ≤ room) :
    Leads (buildWeak fuel slots count tag) h
      (fun slots k => Tends { s with
          referring := slots.reverse
          tally := { s.tally with given := s.tally.given + count } } k ∧ Grows (2 * count) h k)
      (Foiled { s with referring := [] } room) := by
  -- By induction on the pairs still to be made; those made so far are in `slots`, the latest first
  -- in the site. A failure drops them all.
  induction count generalizing s h slots tag with
  | zero =>
    refine ⟨?_, .refl h⟩
    rw [← hslots]
    exact ht
  | succ count ih =>
    unfold buildWeak
    rw [leads_bind]
    refine leads_onFailure_foiled ((weakPair_tends ht hanchored hstack hfuel (by omega)).imp ?_) ?_
    · rintro slot k ⟨htk, hg⟩
      have hsize := hg.size
      have hslots' : (s.referringTo slot).referring = (slots ++ [slot]).reverse := by
        rw [List.reverse_append, ← hslots]
        rfl
      refine (ih htk hslots' hanchored hstack (by omega)).mono ?_ ?_
      · rintro slots' l ⟨htl, hgl⟩
        have hgiven : s.tally.given + 1 + count = s.tally.given + (count + 1) := by omega
        rw [Nat.mul_succ, Nat.add_comm (2 * count), ← hgiven]
        exact ⟨htl, hg.trans hgl⟩
      · exact fun _ _ hf => ⟨hf.cause, hf.tends, hf.size_le⟩
    · intro e k hf
      refine hf.unwind fun given discarded htk => ?_
      have hperm : slots.Perm s.referring := hslots ▸ (List.reverse_perm slots).symm
      refine (forM_dropWeak_tends (s := s.settled given discarded) slots
        (Tends.refer htk hperm)).mono ?_
      rintro _ l ⟨discarded', htl, hl, -⟩
      exact ⟨⟨given, discarded', htl⟩, _, _, hl⟩

/-! ## Trees -/

/-- The node is the root of a full binary tree whose nodes are tagged from `tag` on, level by
level. -/
def IsTree (h : Heap) : Nat → Nat → NodeId → Prop
  | 0, tag, n => h.payload? n = some (content none none tag)
  | depth + 1, tag, n => ∃ left right,
    h.payload? n = some (content (some left) (some right) tag) ∧
      IsTree h depth (2 * tag) left ∧ IsTree h depth (2 * tag + 1) right

/-- The sum of the tags in such a tree. -/
def tagSum : Nat → Nat → Nat
  | 0, tag => tag
  | depth + 1, tag => tag + tagSum depth (2 * tag) + tagSum depth (2 * tag + 1)

namespace IsTree

variable {depth tag : Nat}

/-- A tree that is reachable is kept. -/
theorem keep (hn : IsTree h depth tag n) (hreach : h.Reach n) (hk : Keeps h k) :
    IsTree k depth tag n := by
  induction depth generalizing tag n with
  | zero => exact (hk.payload n hreach).trans hn
  | succ depth ih =>
    rcases hn with ⟨left, right, hp, hleft, hright⟩
    have hmem : ∀ m, m = left ∨ m = right → h.Reach m := fun m hm =>
      .edge hreach hp (by simpa [Payload.edges, content] using hm)
    exact ⟨left, right, (hk.payload n hreach).trans hp, ih hleft (hmem left (.inl rfl)),
      ih hright (hmem right (.inr rfl))⟩

/-- So is any tree if no payload changes. -/
theorem edit (hn : IsTree h depth tag n) (hk : Edits ∅ ns h k) : IsTree k depth tag n := by
  induction depth generalizing tag n with
  | zero => exact (hk.payload n (Set.notMem_empty n)).trans hn
  | succ depth ih =>
    rcases hn with ⟨left, right, hp, hleft, hright⟩
    exact ⟨left, right, (hk.payload n (Set.notMem_empty n)).trans hp, ih hleft, ih hright⟩

/-- Summing up a tree gives the sum of its tags. -/
theorem treeSum_eq (hn : IsTree h depth tag n) : treeSum h depth n = tagSum depth tag := by
  induction depth generalizing tag n with
  | zero =>
    unfold treeSum
    rw [show h.payload? n = some (content none none tag) from hn]
    rfl
  | succ depth ih =>
    rcases hn with ⟨left, right, hp, hleft, hright⟩
    unfold treeSum tagSum
    rw [hp, ← ih hleft, ← ih hright]
    rfl

end IsTree

theorem treeNodes_succ (depth : Nat) : treeNodes (depth + 1) = 2 * treeNodes depth + 1 := by
  unfold treeNodes
  rw [Nat.one_shiftLeft, Nat.one_shiftLeft, Nat.pow_succ]
  have hpos : 0 < 2 ^ (depth + 1) := Nat.two_pow_pos _
  omega

/-- A tag that has room for a whole tree below it can be doubled. -/
theorem leads_leftTag {tag depth : Nat} (hfit : (tag + 1) * 2 ^ (depth + 1) ≤ 2 ^ 64) :
    Returns (leftTag tag) h fun left k => left = 2 * tag ∧ k = h := by
  have hle : 2 * tag ≤ Word.largest := by
    have hpow : 2 ^ 1 ≤ 2 ^ (depth + 1) := Nat.pow_le_pow_right (by decide) (by omega)
    have hmul := Nat.mul_le_mul_left (tag + 1) hpow
    unfold Word.largest
    omega
  unfold leftTag
  rw [show Word.fit? (2 * tag) = some (2 * tag) from if_pos hle]
  exact ⟨rfl, rfl⟩

/-- Nodes on the node stack are roots. -/
theorem Site.rootNodes_pushNode (s : Site) (n : NodeId) :
    ∀ m ∈ s.rootNodes, m ∈ ({ s with nodeStack := s.nodeStack.push n } : Site).rootNodes := by
  intro m hm
  unfold Site.rootNodes at hm ⊢
  simp only [List.mem_append, Array.toList_push] at hm ⊢
  tauto

theorem Site.Anchored.pushNode (hs : s.Anchored) (n : NodeId) :
    Site.Anchored { s with nodeStack := s.nodeStack.push n } := fun m hm =>
  s.rootNodes_pushNode n m (hs m hm)

/-- After a failure the node stack is shrunk to what it was. -/
theorem Foiled.restoreStack {above : Array NodeId}
    (hf : Foiled { s with nodeStack := s.nodeStack ++ above } room e k) :
    Returns (restoreStack s.nodeStack.size) k fun _ l => Foiled s room e l := by
  refine hf.unwind fun given discarded htk => ?_
  refine (restoreStack_tends (s := s.settled given discarded) htk).mono ?_
  rintro _ l ⟨htl, hl⟩
  exact ⟨⟨given, discarded, htl⟩, _, _, hl.toTouches⟩

/-- After a failure an edge in flight is dropped. -/
theorem Foiled.decrement (hf : Foiled (s.holding [n]) room e k) :
    Returns (decrement n) k fun _ l => Foiled s room e l := by
  refine hf.unwind fun given discarded htk => ?_
  refine (decrement_tends (s := s.settled given discarded) htk).mono ?_
  rintro _ l ⟨htl, hl, -⟩
  exact ⟨⟨given, discarded, htl⟩, _, _, hl.toTouches⟩

/-- Two trees in flight whose roots are on the stacks are joined by a cell that is built around
them. -/
theorem joinTrees_tends {depth tag : Nat} {left right : NodeId}
    (ht : Tends (s.holding [left, right]) h) (hleft : left ∈ s.rootNodes)
    (hright : right ∈ s.rootNodes) (hanchored : s.Anchored)
    (htree : IsTree h depth (2 * tag) left) (htree' : IsTree h depth (2 * tag + 1) right)
    (hfuel : 2 * room < fuel) (hroom : h.nodes.size + 1 ≤ room) :
    Leads (cellEdge fuel (some left) (some right) tag) h
      (fun n k => Tends (s.holding [n]) k ∧ Grows 1 h k ∧ IsTree k (depth + 1) tag n ∧
        (k.status n).count ≤ 1) (Foiled s room) := by
  have hedges : Tends (s.holding (content (some left) (some right) tag).edges) h := ht
  have htop : ∀ m ∈ [left, right], m ∈ s.rootNodes := by simp [hleft, hright]
  refine (cellEdge_tends hedges (hanchored.holding htop) hfuel hroom).imp fun n k hc => ?_
  exact ⟨hc.tends, hc.grows,
    ⟨left, right, hc.payload, htree.keep (ht.reach hleft) hc.grows.toKeeps,
      htree'.keep (ht.reach hright) hc.grows.toKeeps⟩, by simpa using hc.count_new⟩

/-- Building a tree leaves its root in flight. -/
theorem tree_tends {tag : Nat} (depth : Nat) (ht : Tends s h) (hanchored : s.Anchored)
    (hstack : s.HasRoom (2 * depth)) (hfit : (tag + 1) * 2 ^ depth ≤ 2 ^ 64)
    (hfuel : 2 * room < fuel) (hroom : h.nodes.size + treeNodes depth ≤ room) :
    Leads (tree fuel depth tag) h
      (fun n k => Tends (s.holding [n]) k ∧ Grows (treeNodes depth) h k ∧ IsTree k depth tag n ∧
        (k.status n).count ≤ 1) (Foiled s room) := by
  induction depth generalizing s h tag with
  | zero =>
    refine (emptyEdge_tends ht hanchored hfuel hroom).imp fun n k hc => ?_
    exact ⟨hc.tends, hc.grows, hc.payload, hc.count_new.trans (by simp)⟩
  | succ depth ih =>
    rw [treeNodes_succ] at hroom ⊢
    have hbelow : (2 * tag + 1 + 1) * 2 ^ depth ≤ 2 ^ 64 := by
      rw [Nat.pow_succ', ← Nat.mul_assoc, Nat.mul_comm (tag + 1) 2] at hfit
      exact hfit
    have hbelow' : (2 * tag + 1) * 2 ^ depth ≤ 2 ^ 64 :=
      (Nat.mul_le_mul_right _ (Nat.le_succ _)).trans hbelow
    unfold Site.HasRoom at hstack
    unfold tree
    rw [leads_bind, leads_view, ht.roots.nodeStack]
    -- Whatever fails, what is above the old top of the node stack goes.
    refine leads_ensuring_foiled
      (E := fun e k => ∃ above, Foiled { s with nodeStack := s.nodeStack ++ above } room e k) ?_
      fun e k hf => hf.elim fun _ hf => hf.restoreStack
    have hbase : s = { s with nodeStack := s.nodeStack ++ #[] } := by rw [Array.append_empty]
    rw [leads_bind]
    refine (leads_leftTag hfit).leads ?_
    rintro _ k₀ ⟨rfl, hk₀⟩
    rw [hk₀]
    rw [leads_bind]
    refine (ih ht hanchored (by unfold Site.HasRoom; omega) hbelow' (by omega)).mono ?_
      fun e k hf => ⟨#[], hbase ▸ hf⟩
    rintro left k₁ ⟨ht₁, hg₁, htree₁, -⟩
    rw [leads_bind]
    have hleft : k₁.isAllocated left = true := ht₁.isAllocated_of_holding List.mem_cons_self
    have hone : Site.HasRoom (s.holding [left]) 1 := by
      show s.stack.size + s.nodeStack.size + 1 + 2 < _
      omega
    refine (pushNode_tends ht₁ hleft hone).leads ?_
    rintro _ k₂ ⟨ht₂, hk₂⟩
    -- The left subtree stays on the node stack while the right one is built.
    let s₂ : Site := { s with nodeStack := s.nodeStack.push left }
    have hsize₂ : s₂.nodeStack.size = s.nodeStack.size + 1 := Array.size_push _
    have hleft₂ : left ∈ s₂.rootNodes := by simp [Site.rootNodes, s₂]
    have hg₂ : Grows (treeNodes depth) h k₂ :=
      hg₁.edit ht ht₂ hk₂ (fun _ hm => hm.elim) (s.rootNodes_pushNode left)
    have hgrown₂ := hg₂.size
    have hanchored₂ : (s₂.holding [left]).Anchored :=
      (hanchored.pushNode left).holding fun m hm => by
        rw [List.mem_singleton.1 hm]
        exact hleft₂
    have hroom₂ : (s₂.holding [left]).HasRoom (2 * depth) := by
      show s.stack.size + s₂.nodeStack.size + 2 * depth + 2 < _
      omega
    rw [leads_bind]
    refine (leads_onFailure_foiled (s := s₂) (ih ht₂ hanchored₂ hroom₂ hbelow (by omega))
      fun _ _ hf => hf.decrement).mono ?_
        fun e k hf => ⟨#[left], by rwa [← Array.push_eq_append]⟩
    rintro right k₃ ⟨ht₃, hg₃, htree₃, -⟩
    have hright : k₃.isAllocated right = true := ht₃.isAllocated_of_holding List.mem_cons_self
    have hone' : Site.HasRoom ((s₂.holding [left]).holding [right]) 1 := by
      show s.stack.size + s₂.nodeStack.size + 1 + 2 < _
      omega
    rw [leads_bind]
    refine (pushNode_tends ht₃ hright hone').leads ?_
    rintro _ k₄ ⟨ht₄, hk₄⟩
    -- Both are on the node stack, and in flight besides, when their parent is allocated.
    let s₄ : Site := { s₂ with nodeStack := s₂.nodeStack.push right }
    have hs₄ : s₄ = { s with nodeStack := s.nodeStack ++ #[left, right] } := by
      show ({ s with nodeStack := (s.nodeStack.push left).push right } : Site) = _
      rw [Array.push_eq_append, Array.push_eq_append, Array.append_assoc]
      rfl
    have ht₄' : Tends (s₄.holding [right, left]) k₄ := ht₄
    have hg₄ : Grows (2 * treeNodes depth) h k₄ := by
      rw [Nat.two_mul]
      exact (hg₂.trans hg₃).edit ht ht₄ hk₄ (fun _ hm => hm.elim) fun m hm =>
        s₂.rootNodes_pushNode right m (s.rootNodes_pushNode left m hm)
    have hgrown₄ := hg₄.size
    have hleft₄ : IsTree k₄ depth (2 * tag) left :=
      ((htree₁.edit hk₂).keep (ht₂.reach hleft₂) hg₃.toKeeps).edit hk₄
    refine (joinTrees_tends (s := s₄) (ht₄'.perm (.swap left right []))
      (s₂.rootNodes_pushNode right left hleft₂) (by simp [Site.rootNodes, s₄])
      ((hanchored.pushNode left).pushNode right) hleft₄ (htree₃.edit hk₄) hfuel (by omega)).mono ?_
      fun e k hf => ⟨#[left, right], hs₄ ▸ hf⟩
    rintro n k₅ ⟨ht₅, hg₅, htree₅, hcount₅⟩
    rw [hs₄] at ht₅
    refine (restoreStack_tends (s := s.holding [n]) ht₅).mono ?_
    rintro _ k₆ ⟨ht₆, hk₆⟩
    exact ⟨ht₆, (hg₄.trans hg₅).edit ht ht₆ hk₆ (fun _ hm => hm.elim) fun _ hm => hm,
      htree₅.edit hk₆, (hk₆.count n).trans hcount₅⟩

end Workload

end HybridHeap
