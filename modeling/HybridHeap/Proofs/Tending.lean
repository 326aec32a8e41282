import HybridHeap.Proofs.Purging
import HybridHeap.Proofs.Safety

/-!
# What a builder has in hand

While a workload builds something it holds references that are nowhere in the heap yet, roots on
the stacks, explicit roots and weak references. A `Site` says what they are, and the heap is tended
as the site says: nothing else is rooted, and whatever is in hand is accounted for. Each step that a
builder takes besides allocating leads from one site to another and never fails.
-/

namespace HybridHeap

open Collector Act Mutator

namespace Workload

/-- What building leaves as it is, but for the finalizers that are given or discarded. -/
structure Tally where
  config : Settings
  headroom : Nat → Nat
  /-- The most bytes that may be outstanding. -/
  limit : Option Nat
  /-- How many finalizers have been given. -/
  given : Nat
  /-- The finalizers that went with their weak references. -/
  discarded : List Nat

/-- What a builder has in hand. -/
structure Site where
  /-- The targets of counted references that are not in the heap. -/
  flight : List NodeId
  /-- The explicit roots with their slots. -/
  rooted : List (NodeId × Nat)
  /-- The slots of the weak references. -/
  referring : List Nat
  /-- The stack roots. -/
  stack : Array NodeId
  nodeStack : Array NodeId
  tally : Tally

namespace Site

variable (s : Site)

def juncture : Juncture :=
  { Juncture.rest with flight := s.flight, rooted := s.rooted, referring := s.referring }

/-- The site with further references in flight. -/
def holding (ns : List NodeId) : Site := { s with flight := ns ++ s.flight }

/-- The site after finalizers have been given or discarded. -/
def settled (given : Nat) (discarded : List Nat) : Site :=
  { s with tally := { s.tally with given, discarded } }

def rootNodes : List NodeId := s.rooted.map Prod.fst ++ s.stack.toList ++ s.nodeStack.toList

/-- Whatever is in flight is rooted besides. -/
def Anchored : Prop := ∀ n ∈ s.flight, n ∈ s.rootNodes

/-- The roots are those of the site, and no more on the stacks than counts have room for. -/
structure Describes (r : Roots) : Prop where
  stack : r.stack = s.stack
  nodeStack : r.nodeStack = s.nodeStack
  protect : r.protect = #[]
  explicit : r.explicit.toList.Perm (s.rooted.map Prod.fst)
  weak : r.weak.toList.length = s.referring.length
  shallow : s.stack.size + s.nodeStack.size + 2 < Status.countMax

theorem juncture_holding (ns : List NodeId) :
    (s.holding ns).juncture = s.juncture.holding ns := rfl

theorem whole : s.juncture.Whole :=
  { Juncture.ready_rest with idle := fun _ => { Juncture.ready_rest.idle rfl with } }

theorem steady : s.juncture.Steady := { s.whole with loose := rfl }

end Site

end Workload

open Workload

/-- What building leaves as it is, but for finalizers. -/
def Heap.tally (h : Heap) : Tally :=
  ⟨h.config, h.headroom, h.memory.store.limit, h.chronicle.given, h.chronicle.discarded⟩

/-- What leaves where a heap stands leaves its tally. -/
theorem Heap.tally_of_standing {h k : Heap} (hk : k.standing = h.standing) : k.tally = h.tally :=
  congrArg (fun g : Standing => (⟨g.config, g.headroom, g.limit, g.given, g.discarded⟩ : Tally)) hk

/-- Whether the trigger fits in a word is read off the gauge. -/
theorem Heap.Strained.of_gauge {h k : Heap} (hs : h.Strained)
    (hk : k.gauge = { h.gauge with chronicle := k.chronicle }) : k.Strained := by
  have hconfig : k.config = h.config := congrArg Gauge.config hk
  have hheadroom : k.headroom = h.headroom := congrArg Gauge.headroom hk
  have hmemory : k.memory = h.memory := congrArg Gauge.memory hk
  have hstats : k.stats = h.stats := congrArg Gauge.stats hk
  unfold Heap.Strained Heap.bytes at hs ⊢
  rw [hconfig, hheadroom, hmemory, hstats]
  exact hs

namespace Workload

variable {s s' : Site} {h k l : Heap} {n m : NodeId} {D D' : Set NodeId} {ns ms : List NodeId}

/-- The heap is tended as the site says, every finalizer started has run, and the limit on memory
has been kept, unless it is the largest word and thus none. -/
structure Tends (s : Site) (h : Heap) : Prop extends h.Tended where
  inv : Invariant .tidying s.juncture h
  roots : s.Describes h.roots
  tally : h.tally = s.tally
  ran : finalized h = h.chronicle.started.length
  given_le : s.tally.given ≤ h.nodes.size
  limited : ∀ limit, s.tally.limit = some limit → limit < Word.largest → h.chronicle.peak ≤ limit

namespace Tends

theorem mem_rootNodes (ht : Tends s h) : n ∈ h.rootNodes ↔ n ∈ s.rootNodes := by
  rw [Heap.rootNodes_eq ht.external]
  unfold Heap.stackedRoots Site.rootNodes
  rw [ht.roots.stack, ht.roots.nodeStack, ht.roots.protect]
  simp only [List.mem_append, ht.roots.explicit.mem_iff, List.not_mem_nil, or_false, or_assoc]

theorem reach (ht : Tends s h) (hn : n ∈ s.rootNodes) : h.Reach n := .root (ht.mem_rootNodes.2 hn)

theorem isAllocated (ht : Tends s h) (hn : n ∈ s.rootNodes) : h.isAllocated n = true :=
  (ht.reach hn).isAllocated ht.inv

/-- The order of what is in flight does not matter. -/
theorem perm (ht : Tends (s.holding ns) h) (hp : ns.Perm ms) : Tends (s.holding ms) h :=
  { ht with inv := Invariant.holding_perm (w := s.juncture) ht.inv hp, roots := { ht.roots with } }

/-- What is in flight has storage. -/
theorem isAllocated_of_holding (ht : Tends (s.holding ns) h) (hn : n ∈ ns) :
    h.isAllocated n = true := by
  refine ht.inv.grounded n ?_
  have hpos : 0 < (ns ++ s.flight).count n := List.count_pos_iff.2 (List.mem_append_left _ hn)
  unfold Heap.debts
  exact Nat.lt_of_lt_of_le hpos (Nat.le_add_left _ _)

end Tends

/-- A heap that is tended and stands as one did that is tended as the site says. -/
theorem Tends.stand (ht : Tends s h) (hk : k.Tended) (inv : Invariant .tidying s'.juncture k)
    (hroots : s'.Describes k.roots) (htally : s'.tally = s.tally)
    (hstanding : k.standing = h.standing) (hsize : h.nodes.size ≤ k.nodes.size) : Tends s' k :=
  { hk with
    inv
    roots := hroots
    tally := by
      rw [Heap.tally_of_standing hstanding, htally]
      exact ht.tally
    ran := by
      have hfinalized : finalized k = finalized h := congrArg Standing.finalized hstanding
      have hstarted : k.chronicle.started = h.chronicle.started :=
        congrArg Standing.started hstanding
      rw [hfinalized, hstarted]
      exact ht.ran
    given_le := by
      rw [htally]
      exact ht.given_le.trans hsize
    limited := fun limit hlimit hword => by
      have hpeak : k.chronicle.peak = h.chronicle.peak := congrArg Standing.peak hstanding
      rw [htally] at hlimit
      rw [hpeak]
      exact ht.limited limit hlimit hword }

/-! ## What the steps of a builder touch -/

/-- No node has come or gone, nor any payload but perhaps those of `D`, and no count has grown by
more than the occurrences in `ns`. Of all the rest only roots and the record of finalizers may have
changed. -/
structure Touches (D : Set NodeId) (ns : List NodeId) (h k : Heap) : Prop where
  gauge : k.gauge = { h.gauge with chronicle := k.chronicle }
  peak : k.chronicle.peak = h.chronicle.peak
  started : k.chronicle.started = h.chronicle.started
  size : k.nodes.size = h.nodes.size
  stage : k.stage = h.stage
  detached : k.isDetached = h.isDetached
  payload : ∀ n ∉ D, k.payload? n = h.payload? n
  count : ∀ n, (k.status n).count ≤ (h.status n).count + ns.count n
  external : k.roots.external = h.roots.external
  handles : k.handles = h.handles
  lost : k.lost = h.lost

/-- Besides, no weak entry has gone. -/
structure Edits (D : Set NodeId) (ns : List NodeId) (h k : Heap) : Prop
    extends Touches D ns h k where
  weak : ∀ e ∈ h.roots.weak.toList, e ∈ k.roots.weak.toList

namespace Touches

theorem isAllocated (hk : Touches D ns h k) : k.isAllocated = h.isAllocated := by
  funext n
  rw [Bool.eq_iff_iff, Heap.isAllocated_iff, Heap.isAllocated_iff, hk.stage]

theorem limit (hk : Touches D ns h k) : k.memory.store.limit = h.memory.store.limit :=
  congrArg (fun g : Gauge => g.memory.store.limit) hk.gauge

theorem refl (h : Heap) : Touches ∅ [] h h where
  gauge := rfl
  peak := rfl
  started := rfl
  size := rfl
  stage := rfl
  detached := rfl
  payload := fun _ _ => rfl
  count := fun _ => Nat.le_add_right _ _
  external := rfl
  handles := rfl
  lost := rfl

theorem trans (h₁ : Touches D ns h k) (h₂ : Touches D' ms k l) :
    Touches (D ∪ D') (ns ++ ms) h l where
  gauge := by rw [h₂.gauge, h₁.gauge]
  peak := h₂.peak.trans h₁.peak
  started := h₂.started.trans h₁.started
  size := h₂.size.trans h₁.size
  stage := h₂.stage.trans h₁.stage
  detached := h₂.detached.trans h₁.detached
  payload := fun n hn => by
    rw [Set.mem_union, not_or] at hn
    rw [h₂.payload n hn.2, h₁.payload n hn.1]
  count := fun n => by
    have hle₁ := h₁.count n
    have hle₂ := h₂.count n
    rw [List.count_append]
    omega
  external := h₂.external.trans h₁.external
  handles := h₂.handles.trans h₁.handles
  lost := h₂.lost.trans h₁.lost

end Touches

theorem Edits.refl (h : Heap) : Edits ∅ [] h h := { Touches.refl h with weak := fun _ he => he }

theorem Edits.trans (h₁ : Edits D ns h k) (h₂ : Edits D' ms k l) : Edits (D ∪ D') (ns ++ ms) h l :=
  { h₁.toTouches.trans h₂.toTouches with
    weak := fun e he => h₂.weak e (h₁.weak e he) }

/-- What touches nothing but counts and queues edits no payload. -/
theorem Edits.of_recounted (hr : Recounted h k) (hgauge : k.gauge = h.gauge)
    (hcount : ∀ n, (k.status n).count ≤ (h.status n).count + ns.count n) : Edits ∅ ns h k :=
  have hchronicle : k.chronicle = h.chronicle := congrArg Gauge.chronicle hgauge
  { gauge := by
      rw [hgauge, hchronicle]
      rfl
    peak := by rw [hchronicle]
    started := by rw [hchronicle]
    size := hr.size_nodes
    stage := hr.stage
    detached := hr.isDetached
    payload := fun n _ => congrFun hr.payload? n
    count := hcount
    external := by rw [hr.roots]
    handles := hr.handles
    lost := hr.lost
    weak := fun e he => by
      rw [hr.roots]
      exact he }

/-- Changing roots edits no payload. -/
theorem Edits.modifyRoots {f : Roots → Roots} (hexternal : (f h.roots).external = h.roots.external)
    (hweak : ∀ e ∈ h.roots.weak.toList, e ∈ (f h.roots).weak.toList) :
    Edits ∅ [] h (h.modifyRoots f) where
  gauge := rfl
  peak := rfl
  started := rfl
  size := rfl
  stage := rfl
  detached := rfl
  payload := fun _ _ => rfl
  count := fun _ => Nat.le_add_right _ _
  external := hexternal
  handles := rfl
  lost := rfl
  weak := hweak

namespace Tends

/-- A heap that has only been touched is tended as another site says if the invariant holds there
and the roots are those of that site. -/
theorem touch (ht : Tends s h) (hk : Touches D ns h k) (inv : Invariant .tidying s'.juncture k)
    (hroots : s'.Describes k.roots) (htally : k.tally = s'.tally)
    (hgiven : s'.tally.given ≤ h.nodes.size)
    (hcounts : ∀ n ∈ ns, (h.status n).count + ns.count n ≤ 2)
    (hplain : ∀ n ∈ D, ∀ p, k.payload? n = some p →
      p.borrowed = false ∧ p.hook = none ∧ p.hidden = []) : Tends s' k := by
  -- Payloads that were touched are plain by hypothesis, the others because they were before.
  have hsimple : ∀ n p, k.payload? n = some p →
      p.borrowed = false ∧ p.hook = none ∧ p.hidden = [] := by
    intro n p hp
    by_cases hn : n ∈ D
    · exact hplain n hn p hp
    · rw [hk.payload n hn] at hp
      exact ⟨ht.unborrowed n p hp, ht.simple n p hp⟩
  have hexternal : k.roots.external = #[] := hk.external.trans ht.external
  exact
    { attached := fun n hn => by
        rw [hk.detached]
        exact ht.attached n (congrFun hk.isAllocated n ▸ hn)
      unborrowed := fun n p hp => (hsimple n p hp).1
      simple := fun n p hp => (hsimple n p hp).2
      external := hexternal
      handles := hk.handles.trans ht.handles
      lost := hk.lost.trans ht.lost
      counts := fun n => by
        have hle := hk.count n
        by_cases hn : n ∈ ns
        · have hsum := hcounts n hn
          omega
        · have hold := ht.counts n
          rw [List.count_eq_zero_of_not_mem hn] at hle
          omega
      pins := by
        have hshallow := hroots.shallow
        unfold Heap.pinned Heap.stackedRoots Heap.externalRoots
        rw [hexternal, hroots.stack, hroots.nodeStack, hroots.protect]
        simpa using hshallow
      inv
      roots := hroots
      tally := htally
      ran := by
        rw [hk.started, ← ht.ran]
        exact congrArg Gauge.finalized hk.gauge
      given_le := by
        rw [hk.size]
        exact hgiven
      limited := fun limit hlimit hword => by
        have hsame : s.tally.limit = some limit := by
          rw [← ht.tally, ← hlimit, ← htally]
          exact hk.limit.symm
        rw [hk.peak]
        exact ht.limited limit hsame hword }

/-- So it is if no count or payload has changed and no finalizer has been given. -/
theorem retouch (ht : Tends s h) (hk : Touches ∅ [] h k) (inv : Invariant .tidying s'.juncture k)
    (hroots : s'.Describes k.roots) (htally : k.tally = s'.tally)
    (hgiven : s'.tally.given = s.tally.given) : Tends s' k :=
  ht.touch hk inv hroots htally (hgiven.le.trans ht.given_le) (fun _ hn => by cases hn)
    fun _ hn => hn.elim

end Tends

/-! ## Counting -/

/-- Counting one more reference puts it in flight. -/
theorem increment_tends (ht : Tends s h) (hn : h.isAllocated n = true)
    (hcount : (h.status n).count ≤ 1) :
    Returns (increment n) h fun _ k => Tends (s.holding [n]) k ∧ Edits ∅ [n] h k := by
  have hspared : s.juncture.doomed ≠ some n := fun hd => by cases hd
  refine ((increment_spec ht.inv hn hspared).and
    ((leaves_increment uncounted_gauge n).leads h)).mono ?_ ?_
  · rintro _ k ⟨⟨inv, hr⟩, hgauge⟩
    have hk : Edits ∅ [n] h k := .of_recounted hr.toRecounted hgauge hr.bounded
    have hroots : (s.holding [n]).Describes k.roots := by
      rw [hr.roots]
      exact { ht.roots with }
    have htally : k.tally = s.tally :=
      (Heap.tally_of_standing (congrArg Gauge.standing hgauge)).trans ht.tally
    refine ⟨ht.touch hk.toTouches inv hroots htally ht.given_le (fun m hm => ?_)
      fun _ hm => hm.elim, hk⟩
    obtain rfl := List.mem_singleton.1 hm
    rw [List.count_singleton_self]
    omega
  · exact fun _ _ he => he.1

/-- Counting a reference in flight down takes it out of flight. -/
theorem decrement_tends (ht : Tends (s.holding [n]) h) :
    Returns (decrement n) h fun _ k => Tends s k ∧ Edits ∅ [] h k ∧
      (k.status n).count + 1 = (h.status n).count := by
  refine ((decrement_spec (w := s.juncture) ht.inv).and
    ((leaves_decrement uncounted_gauge n).leads h)).mono ?_ ?_
  · rintro _ k ⟨⟨inv, hl⟩, hgauge⟩
    have hk : Edits ∅ [] h k :=
      .of_recounted hl.toRecounted hgauge fun m => (hl.le m).trans (Nat.le_add_right _ _)
    have hroots : s.Describes k.roots := by
      rw [hl.roots]
      exact { ht.roots with }
    have htally : k.tally = s.tally :=
      (Heap.tally_of_standing (congrArg Gauge.standing hgauge)).trans ht.tally
    have ht' : Tends s k := ht.retouch hk.toTouches inv hroots htally rfl
    have hbefore := (ht.inv.count n).resolve_left (by simp [ht.unsaturated n])
    have hafter := (inv.count n).resolve_left (by simp [ht'.unsaturated n])
    rw [hl.debts] at hafter
    rw [s.juncture_holding, h.debts_holding, if_pos rfl] at hbefore
    exact ⟨ht', hk, by omega⟩
  · exact fun _ _ he => he.1

/-! ## Payloads -/

/-- Filling an empty place adds an edge. -/
theorem count_set_some {places : List (Option NodeId)} {place : Nat}
    (hplace : places[place]? = some none) (target m : NodeId) :
    ((places.set place (some target)).filterMap id).count m =
      (places.filterMap id).count m + [target].count m := by
  induction places generalizing place with
  | nil => cases hplace
  | cons head rest ih =>
    cases place with
    | zero =>
      obtain rfl : head = none := Option.some.inj hplace
      show (target :: rest.filterMap id).count m = (rest.filterMap id).count m + [target].count m
      rw [List.count_cons, List.count_singleton]
    | succ place =>
      have htail := ih (show rest[place]? = some none from hplace)
      cases head with
      | none => exact htail
      | some n =>
        show (n :: (rest.set place (some target)).filterMap id).count m =
          (n :: rest.filterMap id).count m + [target].count m
        rw [List.count_cons, List.count_cons, htail]
        omega

/-- Storing an edge that is in flight in an empty place of a cell. -/
theorem fill_tends {place : Nat} {target : NodeId} {p : Payload} (ht : Tends (s.holding [target]) h)
    (hp : h.payload? n = some p) (hplace : p.places[place]? = some none) :
    Returns (fill n place target) h fun _ k => Tends s k ∧ Edits {n} [] h k := by
  let f : Payload → Payload := fun p => { p with places := p.places.set place (some target) }
  have hcount : ∀ m, (f p).allEdges.count m + ([] : List NodeId).count m =
      p.allEdges.count m + [target].count m := by
    intro m
    rw [Payload.count_allEdges, Payload.count_allEdges, count_set_some hplace]
    simp only [f, List.count_nil]
    omega
  have inv := Invariant.change (w := s.juncture) [target] [] ht.inv List.not_mem_nil hp hcount
  have hk : Edits {n} [] h (h.modifyPayload n f) :=
    { gauge := rfl
      peak := rfl
      started := rfl
      size := h.size_nodes_modifyPayload n f
      stage := funext fun m => Heap.stage_modifyNode (fun _ => by rfl) h n m
      detached := h.isDetached_modifyPayload n f
      payload := fun m hm => (h.payload?_modifyPayload n m f).trans (if_neg hm)
      count := fun m => by
        rw [h.status_modifyPayload]
        exact Nat.le_add_right _ _
      external := rfl
      handles := rfl
      lost := rfl
      weak := fun _ he => he }
  unfold fill
  simp only [Returns, leads_change]
  refine ⟨ht.touch hk.toTouches inv { ht.roots with } ht.tally ht.given_le
    (fun _ hm => by cases hm) fun m hm q hq => ?_, hk⟩
  obtain rfl : m = n := hm
  rw [h.payload?_modifyPayload, if_pos rfl, hp] at hq
  obtain rfl := Option.some.inj hq
  exact ⟨ht.unborrowed m p hp, ht.simple m p hp⟩

/-! ## The stacks -/

/-- Room on the stacks for so many more roots. -/
def Site.HasRoom (s : Site) (count : Nat) : Prop :=
  s.stack.size + s.nodeStack.size + count + 2 < Status.countMax

/-- The stacks may be anything whose entries were there or have storage. -/
theorem Tends.restack (ht : Tends s h) {f : Roots → Roots} {stack nodeStack : Array NodeId}
    (hf : f h.roots = { h.roots with stack, nodeStack })
    (hstack : ∀ n ∈ stack, n ∈ s.stack ∨ h.isAllocated n = true)
    (hnodeStack : ∀ n ∈ nodeStack, n ∈ s.nodeStack ∨ h.isAllocated n = true)
    (hshallow : stack.size + nodeStack.size + 2 < Status.countMax) :
    Tends { s with stack, nodeStack } (h.modifyRoots f) ∧ Edits ∅ [] h (h.modifyRoots f) := by
  have hpins : ∀ pins doomed, s.juncture.guard ≠ some (.lite pins doomed) := fun _ _ hw => by
    cases hw
  have inv : Invariant .tidying s.juncture
      (h.modifyRoots fun r => { r with stack, protect := h.roots.protect, nodeStack }) :=
    ht.inv.restack (fun n hn => ht.roots.stack ▸ (hstack n hn).imp_right fun ha => ⟨ha, hpins⟩)
      (fun n hn => .inl hn)
      fun n hn => ht.roots.nodeStack ▸ (hnodeStack n hn).imp_right fun ha => ⟨ha, hpins⟩
  have hroots : Site.Describes { s with stack, nodeStack } { h.roots with stack, nodeStack } :=
    { ht.roots with stack := rfl, nodeStack := rfl, shallow := hshallow }
  have heq : h.modifyRoots f = h.modifyRoots fun r => { r with stack, nodeStack } :=
    congrArg (fun roots => { h with roots }) hf
  have hk : Edits ∅ [] h (h.modifyRoots fun r => { r with stack, nodeStack }) :=
    .modifyRoots rfl fun _ he => he
  rw [heq]
  exact ⟨ht.retouch hk.toTouches inv hroots ht.tally rfl, hk⟩

theorem newStackRoot_tends (ht : Tends s h) (hn : h.isAllocated n = true) (hroom : s.HasRoom 1) :
    Returns (newStackRoot n) h fun index k =>
      index = s.stack.size ∧ Tends { s with stack := s.stack.push n } k ∧ Edits ∅ [] h k := by
  unfold newStackRoot
  simp only [Returns, leads_bind, leads_view, leads_update, leads_pure, ht.roots.stack, true_and]
  refine ht.restack (by rw [← ht.roots.stack, ← ht.roots.nodeStack]) (fun m hm => ?_)
    (fun m hm => .inl hm) ?_
  · obtain hm | rfl := Array.mem_push.1 hm
    · exact .inl hm
    · exact .inr hn
  · unfold Site.HasRoom at hroom
    rw [Array.size_push]
    omega

theorem dropStackRoot_tends (ht : Tends { s with stack := s.stack.push n } h) :
    Returns (dropStackRoot n s.stack.size) h fun _ k => Tends s k ∧ Edits ∅ [] h k := by
  have htop : h.roots.stack[s.stack.size]? = some n := by
    rw [ht.roots.stack]
    exact Array.getElem?_push_size
  have hsize : h.roots.stack.size = s.stack.size + 1 := by
    rw [ht.roots.stack]
    exact Array.size_push _
  unfold dropStackRoot
  simp only [Returns, leads_bind, leads_view, htop, hsize, ne_eq, not_true_eq_false, if_true,
    if_false, leads_update]
  refine ht.restack ?_ (fun m hm => ?_) (fun m hm => .inl hm) ?_
  · rw [← ht.roots.nodeStack, ht.roots.stack, Array.pop_push]
  · exact .inl (Array.mem_push_of_mem n hm)
  · have hshallow : (s.stack.push n).size + s.nodeStack.size + 2 < _ := ht.roots.shallow
    rw [Array.size_push] at hshallow
    omega

/-- Another node with storage takes the place of the topmost stack root. -/
theorem replaceTop_tends (ht : Tends { s with stack := s.stack.push n } h)
    (hm : h.isAllocated m = true) :
    Tends { s with stack := s.stack.push m } (h.modifyRoots fun r =>
        { r with stack := r.stack.setIfInBounds s.stack.size m }) ∧
      Edits ∅ [] h (h.modifyRoots fun r =>
        { r with stack := r.stack.setIfInBounds s.stack.size m }) := by
  have htop : (s.stack.push n).setIfInBounds s.stack.size m = s.stack.push m := by
    grind
  refine ht.restack (s := { s with stack := s.stack.push n }) ?_ (fun k hk => ?_)
    (fun k hk => .inl hk) ?_
  · rw [ht.roots.stack, htop, ← ht.roots.nodeStack]
  · obtain hk | rfl := Array.mem_push.1 hk
    · exact .inl (Array.mem_push_of_mem n hk)
    · exact .inr hm
  · have hshallow : (s.stack.push n).size + s.nodeStack.size + 2 < _ := ht.roots.shallow
    rw [Array.size_push] at hshallow ⊢
    exact hshallow

theorem pushNode_tends (ht : Tends s h) (hn : h.isAllocated n = true) (hroom : s.HasRoom 1) :
    Returns (modifyNodeStack (·.push n)) h fun _ k =>
      Tends { s with nodeStack := s.nodeStack.push n } k ∧ Edits ∅ [] h k := by
  unfold modifyNodeStack
  simp only [Returns, leads_update]
  refine ht.restack (by rw [← ht.roots.stack, ← ht.roots.nodeStack]) (fun m hm => .inl hm)
    (fun m hm => ?_) ?_
  · obtain hm | rfl := Array.mem_push.1 hm
    · exact .inl hm
    · exact .inr hn
  · unfold Site.HasRoom at hroom
    rw [Array.size_push]
    omega

/-- Shrinking the node stack to a size that it had before. -/
theorem restoreStack_tends {above : Array NodeId}
    (ht : Tends { s with nodeStack := s.nodeStack ++ above } h) :
    Returns (restoreStack s.nodeStack.size) h fun _ k => Tends s k ∧ Edits ∅ [] h k := by
  have hsize : h.roots.nodeStack.size = s.nodeStack.size + above.size := by
    rw [ht.roots.nodeStack]
    exact Array.size_append
  have hle : ¬s.nodeStack.size + above.size < s.nodeStack.size :=
    Nat.not_lt.2 (Nat.le_add_right _ _)
  unfold restoreStack modifyNodeStack
  simp only [Returns, leads_bind, leads_view, hsize, hle, if_false, leads_update]
  refine ht.restack (s := { s with nodeStack := s.nodeStack ++ above }) ?_ (fun m hm => .inl hm)
    (fun m hm => .inl ?_) ?_
  · rw [ht.roots.nodeStack, ← ht.roots.stack]
    simp
  · exact Array.mem_append_left _ hm
  · have hshallow : s.stack.size + (s.nodeStack ++ above).size + 2 < _ := ht.roots.shallow
    rw [Array.size_append] at hshallow
    omega

/-! ## Explicit roots -/

theorem newRoot_tends (ht : Tends s h) (hn : h.isAllocated n = true)
    (hcount : (h.status n).count ≤ 1) :
    Returns (newRoot n) h fun slot k =>
      Tends { s with rooted := (n, slot) :: s.rooted } k ∧ Edits ∅ [n] h k := by
  unfold newRoot
  simp only [Returns, leads_bind, leads_view, leads_update, leads_pure]
  refine (increment_tends ht hn hcount).leads ?_
  rintro _ k ⟨htk, hk⟩
  have inv := Invariant.insertRoot (w := s.juncture) htk.inv
  have hinsert : Edits ∅ [] k
      (k.modifyRoots fun r => { r with explicit := r.explicit.insert n }) :=
    .modifyRoots rfl fun _ he => he
  have hexplicit : (k.roots.explicit.insert n).toList.Perm (n :: s.rooted.map Prod.fst) :=
    (htk.inv.explicit.toList_insert n).trans (htk.roots.explicit.cons n)
  have hall := hk.trans hinsert
  rw [Set.empty_union] at hall
  exact ⟨htk.retouch hinsert.toTouches inv { htk.roots with explicit := hexplicit } htk.tally rfl,
    hall⟩

theorem dropRoot_tends {slot : Nat}
    (ht : Tends { s with rooted := (n, slot) :: s.rooted } h) :
    Returns (dropRoot n slot) h fun _ k => Tends s k ∧ Edits ∅ [] h k := by
  have inv := Invariant.eraseRoot (w := s.juncture) ht.inv
  have herase : Edits ∅ [] h
      (h.modifyRoots fun r => { r with explicit := r.explicit.erase slot }) :=
    .modifyRoots rfl fun _ he => he
  have hget : h.roots.explicit.get? slot = some n := ht.inv.tokens n slot List.mem_cons_self
  have hexplicit : (h.roots.explicit.erase slot).toList.Perm (s.rooted.map Prod.fst) :=
    ((SlotTable.toList_erase hget).symm.trans ht.roots.explicit).cons_inv
  have ht' : Tends (s.holding [n])
      (h.modifyRoots fun r => { r with explicit := r.explicit.erase slot }) :=
    ht.retouch herase.toTouches inv { ht.roots with explicit := hexplicit } ht.tally rfl
  unfold dropRoot
  simp only [Returns, leads_bind, leads_update]
  refine (decrement_tends ht').leads ?_
  rintro _ k ⟨htk, hk, -⟩
  have hall := herase.trans hk
  rw [Set.empty_union] at hall
  exact ⟨htk, hall⟩

/-! ## Weak references -/

/-- The site with one more weak reference, which has been given a finalizer. -/
def Site.referringTo (s : Site) (slot : Nat) : Site :=
  { s with
    referring := slot :: s.referring
    tally := { s.tally with given := s.tally.given + 1 } }

/-- Flagging a node as the key of a weak reference. -/
theorem Tends.setWeakKey (ht : Tends s h) (hn : h.isAllocated n = true) :
    Tends s (h.setStatus n ((h.status n).insert .weakKey)) ∧
      Edits ∅ [] h (h.setStatus n ((h.status n).insert .weakKey)) := by
  have hstatus : ∀ m, (h.setStatus n ((h.status n).insert .weakKey)).status m =
      if m = n then (h.status n).insert .weakKey else h.status m := fun m =>
    Heap.status_setStatus (Heap.lt_size_of_isAllocated hn) m _
  have hk : Edits ∅ [] h (h.setStatus n ((h.status n).insert .weakKey)) :=
    { gauge := rfl
      peak := rfl
      started := rfl
      size := h.size_nodes_setStatus n _
      stage := funext fun m => h.stage_setStatus n m _
      detached := by
        funext m
        unfold Heap.isDetached
        rw [hstatus]
        split_ifs with hm
        · simp [hm]
        · rfl
      payload := fun m _ => h.payload?_setStatus n m _
      count := fun m => by
        rw [hstatus]
        split_ifs with hm
        · simp [hm, Status.count_insert]
        · exact Nat.le_add_right _ _
      external := rfl
      handles := rfl
      lost := rfl
      weak := fun _ he => he }
  exact ⟨ht.retouch hk.toTouches (ht.inv.setWeakKey hn) ht.roots ht.tally rfl, hk⟩

/-- Putting an entry with a finalizer into the weak table. -/
theorem insertWeak_tends {key value : NodeId} {name : HandleName} {program : Program}
    (ht : Tends (s.holding [value]) h) (hkey : h.isAllocated key = true)
    (hgiven : s.tally.given < h.nodes.size) :
    Returns (insertWeak key (some value) (some (name, program))) h fun slot k =>
      Tends (s.referringTo slot) k ∧ Edits ∅ [] h k := by
  obtain ⟨htk, hk⟩ := ht.setWeakKey hkey
  unfold insertWeak
  simp only [Returns, leads_bind, leads_view, leads_update, leads_pure]
  have hflag : ((h.setStatus key ((h.status key).insert .weakKey)).status key).contains .weakKey =
      true := by
    rw [Heap.status_setStatus (Heap.lt_size_of_isAllocated hkey), if_pos rfl]
    simp
  -- From here on only what is known of the flagged key matters, not how its status came about.
  generalize h.setStatus key ((h.status key).insert .weakKey) = k at htk hk hflag ⊢
  have hkey' : k.isAllocated key = true := (congrFun hk.isAllocated key).trans hkey
  let entry : WeakEntry :=
    { key := some key, value := some value
      finalizer := some { number := k.chronicle.given, name, program } }
  let making : Making :=
    { key, detached := k.isDetached key, phase := k.phase, finalizer := some k.chronicle.given }
  have inv := htk.inv.insertWeak (w := s.juncture) (e := entry) (m := making) s.whole
    ⟨rfl, rfl, rfl, rfl, fun i hi => (Option.some.inj hi).symm⟩
    ⟨hkey', fun hd => by cases hd⟩ hflag
  have hinsert := htk.inv.weak.toList_insert entry
  have hl : Edits ∅ [] k ((k.modifyChronicle (·.make k.roots.weak.nextSlot making)).modifyRoots
      fun r => { r with weak := r.weak.insert entry }) :=
    { gauge := rfl
      peak := rfl
      started := rfl
      size := rfl
      stage := rfl
      detached := rfl
      payload := fun _ _ => rfl
      count := fun _ => Nat.le_add_right _ _
      external := rfl
      handles := rfl
      lost := rfl
      weak := fun e he => hinsert.mem_iff.2 (List.mem_cons_of_mem _ he) }
  have hroots : (s.referringTo k.roots.weak.nextSlot).Describes
      { k.roots with weak := k.roots.weak.insert entry } :=
    { htk.roots with
      weak := hinsert.length_eq.trans (congrArg (· + 1) htk.roots.weak) }
  have htally := congrArg (fun t : Tally => { t with given := t.given + 1 }) htk.tally
  have hgiven' : s.tally.given < k.nodes.size := hk.size.symm ▸ hgiven
  have hall := hk.trans hl
  rw [Set.empty_union] at hall
  exact ⟨htk.touch hl.toTouches inv hroots htally hgiven' (fun _ hm => by cases hm)
    fun _ hm => hm.elim, hall⟩

/-- Dropping a weak reference discards the finalizer that its entry still has. -/
theorem dropWeak_tends {slot : Nat}
    (ht : Tends { s with referring := slot :: s.referring } h) :
    Returns (dropWeak slot) h fun _ k =>
      Tends (s.settled s.tally.given
        (((h.roots.weak.get? slot).bind WeakEntry.number?).toList ++ s.tally.discarded)) k ∧
      Touches ∅ [] h k ∧
      (h.roots.weak.get? slot = some hollow → k.roots.weak = h.roots.weak.erase slot) := by
  obtain ⟨entry, hentry⟩ := Option.isSome_iff_exists.1 (ht.inv.weakTokens slot List.mem_cons_self)
  have hweak : (h.roots.weak.erase slot).toList.length = s.referring.length := by
    have hlength := (SlotTable.toList_erase hentry).length_eq
    rw [ht.roots.weak] at hlength
    exact (Nat.succ.inj hlength).symm
  have inv := Invariant.eraseWeak (w := s.juncture) ht.inv
  rw [hentry] at inv ⊢
  have herase : Touches ∅ [] h
      ((h.modifyChronicle (·.discard entry.number?)).modifyRoots fun r =>
        { r with weak := r.weak.erase slot }) :=
    { gauge := rfl
      peak := rfl
      started := rfl
      size := rfl
      stage := rfl
      detached := rfl
      payload := fun _ _ => rfl
      count := fun _ => Nat.le_add_right _ _
      external := rfl
      handles := rfl
      lost := rfl }
  have htally := congrArg
    (fun t : Tally => { t with discarded := entry.number?.toList ++ t.discarded }) ht.tally
  have ht' : Tends ((s.settled s.tally.given (entry.number?.toList ++ s.tally.discarded)).holding
      entry.value.toList) _ :=
    ht.retouch herase inv { ht.roots with weak := hweak } htally rfl
  unfold dropWeak
  simp only [Returns, leads_bind, leads_view, leads_update, hentry, Option.bind_some]
  cases hvalue : entry.value with
  | none =>
    rw [hvalue] at ht'
    exact ⟨ht', herase, fun _ => rfl⟩
  | some value =>
    rw [hvalue] at ht'
    show Leads (ensuring (decrement value) (pure ())) _ _ _
    rw [leads_ensuring]
    refine (decrement_tends ht').leads ?_
    rintro _ k ⟨htk, hk, -⟩
    have hall := herase.trans hk.toTouches
    rw [Set.empty_union] at hall
    refine ⟨htk, hall, fun hhollow => ?_⟩
    rw [Option.some.inj hhollow] at hvalue
    cases hvalue

/-- Nor does the order of the weak references matter. -/
theorem Tends.refer {slots : List Nat} (ht : Tends s h) (hp : slots.Perm s.referring) :
    Tends { s with referring := slots } h :=
  { ht with
    inv := ht.inv.rename (v := Site.juncture { s with referring := slots }) rfl (fun _ => rfl)
      (.refl _) (hp.append_right _) rfl
    roots := { ht.roots with weak := ht.roots.weak.trans hp.length_eq.symm } }

/-- Dropping weak references whose keys have died discards no finalizer. -/
theorem forM_dropWeak_tends (slots : List Nat) (ht : Tends { s with referring := slots } h) :
    Returns (slots.forM dropWeak) h fun _ k => ∃ discarded,
      Tends (Site.settled { s with referring := [] } s.tally.given discarded) k ∧
      Touches ∅ [] h k ∧
      ((∀ slot ∈ slots, h.roots.weak.get? slot = some hollow) → discarded = s.tally.discarded) := by
  -- No slot comes twice, so dropping one leaves the entries of the others as they are.
  induction slots generalizing s h with
  | nil => exact ⟨s.tally.discarded, ht, .refl h, fun _ => rfl⟩
  | cons slot slots ih =>
    have hnodup : (slot :: h.weakTokens (Site.juncture { s with referring := slots })).Nodup :=
      ht.inv.nodup_weakTokens
    simp only [Returns, List.forM_eq_forM, List.forM_cons, leads_bind]
    refine (dropWeak_tends (s := { s with referring := slots }) ht).leads ?_
    rintro _ k ⟨htk, hk, hweak⟩
    refine (ih (s := s.settled _ _) htk).mono ?_
    rintro _ l ⟨discarded, htl, hl, hsame⟩
    have hall := hk.trans hl
    rw [Set.empty_union] at hall
    refine ⟨discarded, htl, hall, fun hhollow => ?_⟩
    have hfirst := hhollow slot List.mem_cons_self
    have hrest : ∀ other ∈ slots, k.roots.weak.get? other = some hollow := by
      intro other hother
      have hne : other ≠ slot := by
        rintro rfl
        exact (List.nodup_cons.1 hnodup).1 (List.mem_append_left _ hother)
      rw [hweak hfirst, SlotTable.get?_erase, if_neg hne]
      exact hhollow other (List.mem_cons_of_mem _ hother)
    rw [hsame hrest, hfirst]
    rfl

end Workload

end HybridHeap
