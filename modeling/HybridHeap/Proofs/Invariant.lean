import HybridHeap.Mutator.Run
import HybridHeap.Proofs.BlockLayout
import HybridHeap.Proofs.Deaths
import HybridHeap.Proofs.Flips
import HybridHeap.Proofs.Links
import HybridHeap.Proofs.References

/-!
# The invariant of a heap

What holds of a heap whenever the mutator runs, between its steps and inside destructors and
finalizers. A destructor runs in the middle of other operations, so the invariant is relative to a
`Juncture`: what those operations hold in their hands at that point. A count, for example, is the
number of holders in the heap plus the references in flight. An operation is proved correct from one
juncture to another, and what it runs on the way sees the juncture it was started at.

The mutator may be bound by a `Law` besides what its steps check themselves; each promise of the law
is needed by some of the parts of the invariant only.
-/

namespace HybridHeap

/-- What the mutator promises besides what its steps check. -/
structure Law where
  /-- Root sources ask for pinning and designate nodes that have storage, and none is registered or
  changed while a destructor runs. -/
  pinning : Bool
  /-- No byte is written into the storage of a node or around it behind the node's back. -/
  tidy : Bool

/-- Why collections are held off besides for the mutator's guards. -/
inductive Guard where
  /-- A sweep is about to start or has just ended. -/
  | plain
  /-- A full collection is marking or sweeping. -/
  | full
  /-- A lite sweep has pinned some nodes and may be reclaiming one. -/
  | lite (pins : List NodeId) (doomed : Option NodeId)

/-- What the operations under way hold in their hands. -/
structure Juncture where
  guard : Option Guard
  /-- The targets of counted references that are not in the heap. -/
  flight : List NodeId
  /-- Explicit roots that are under no name, with their slots. -/
  rooted : List (NodeId × Nat)
  /-- The slots of weak references that are under no name. -/
  referring : List Nat
  /-- The finalizers of expired entries that are still to be queued, by their numbers. -/
  parting : List Nat
  /-- Nodes with a payload whose storage is still to come. -/
  building : List NodeId
  /-- The kinds and payloads with which nodes are known to be being built. -/
  plans : NodeId → Option (Kind × Payload)
  /-- Nodes taken off their list that still have a payload. -/
  loose : List NodeId
  /-- Nodes marked as detached whose payload may still be there. -/
  dropping : List NodeId
  /-- The nodes whose destructor is running, innermost first. -/
  dying : List NodeId
  /-- Nodes whose destructor has started and has not ended. -/
  started : List NodeId
  /-- What a full collection that is sweeping has found reachable: the nodes on the reachable list,
  each with whether its payload has been dropped. -/
  kept : Option (List (NodeId × Bool))
  /-- How many nodes a lite sweep has reclaimed that has not returned yet. -/
  reclaimed : Nat
  /-- What the lite sweeps have returned, if none may return now. -/
  swept : Option (List Nat)
  /-- What the full collections have returned, if none may return now. -/
  collected : Option (List CollectionResult)
  /-- Whether the manager has a full collection under way. -/
  collecting : Bool
  /-- What the collector is doing. -/
  phase : Phase
  /-- What the chronicle said at some time before. -/
  past : Chronicle
  /-- Whether a fatal error may have cut an operation short before, so that references and bytes
  may be counted that nobody has in hand any more. -/
  torn : Bool
  /-- Whether failures may unwind through destructors and the sweeps that run them, so that marks
  may be out of step with the cycle and nodes be left on the reachable list. -/
  scarred : Bool

namespace Juncture

/-- No operation is under way. -/
def rest : Juncture :=
  { guard := none, flight := [], rooted := [], referring := [], parting := [], building := [],
    plans := fun _ => none, loose := [], dropping := [], dying := [], started := [], kept := none,
    reclaimed := 0,
    swept := none, collected := none, collecting := false, phase := .idle, past := .empty,
    torn := false, scarred := false }

/-- The nodes that a lite sweep has pinned. -/
def pins (w : Juncture) : List NodeId :=
  match w.guard with
  | some (.lite pins _) => pins
  | _ => []

/-- The node that a lite sweep is reclaiming. -/
def doomed (w : Juncture) : Option NodeId :=
  match w.guard with
  | some (.lite _ doomed) => doomed
  | _ => none

/-- The list with what is marked, the others left out. A full collection has one once it has marked
everything that it finds. -/
def markedList (w : Juncture) : Option ListId :=
  match w.guard with
  | some .full => w.kept.map fun _ => reachableList
  | _ => some liveList

/-- The node is one that a lite sweep has taken off its list to give it back. -/
def Takes (w : Juncture) (n : NodeId) : Prop :=
  match w.guard with
  | some (.lite _ doomed) => n ∈ w.loose ∨ doomed = some n
  | _ => False

/-- The number of guards that hold off collections. -/
def guards (w : Juncture) : Nat := if w.guard.isSome then 1 else 0

/-- The juncture with further references in flight. -/
def holding (w : Juncture) (ns : List NodeId) : Juncture := { w with flight := ns ++ w.flight }

/-- No sweep is under way: the only payloads being dropped are those of nodes that are not to get
any storage. -/
structure Idle (w : Juncture) : Prop where
  dropping : w.dropping = []
  started : ∀ n ∈ w.started, n ∈ w.building
  kept : w.kept = none
  loose : w.loose = []
  parting : w.parting = []
  reclaimed : w.reclaimed = 0

/-- The node is none of those that a full collection that is sweeping has found reachable. -/
def Loses (w : Juncture) (n : NodeId) : Prop := ∀ l, w.kept = some l → ∀ x ∈ l, x.1 ≠ n

/-- Where no sweep is under way, no node is kept by one. -/
theorem Idle.loses {w : Juncture} (hw : w.Idle) (n : NodeId) : w.Loses n := fun l hl => by
  rw [hw.kept] at hl
  cases hl

/-- Whether a sweep is under way is not a matter of the guard. -/
theorem Idle.guarded {w : Juncture} (hw : w.Idle) (guard : Option Guard) : Idle { w with guard } :=
  ⟨hw.dropping, hw.started, hw.kept, hw.loose, hw.parting, hw.reclaimed⟩

/-- Nor is it one of what the manager has under way or of the phase. -/
theorem Idle.during {w : Juncture} (hw : w.Idle) (collecting : Bool) (phase : Phase) :
    Idle { w with collecting, phase } :=
  ⟨hw.dropping, hw.started, hw.kept, hw.loose, hw.parting, hw.reclaimed⟩

/-- Where a collection may be asked for: if it is not held off no sweep is under way, and if the
manager lets it begin the collector is idle. -/
structure Open (w : Juncture) : Prop where
  idle : w.guard = none → w.Idle
  calm : w.guard = none → w.collecting = false → w.phase = .idle
  alone : w.guard = none → w.collecting = false
  swept : w.guard = none → w.swept = none
  collected : w.guard = none → w.collected = none

/-- Where the mutator may run: inside a lite sweep only in the destructor of the node that is being
reclaimed, and inside any collection only in some destructor. -/
structure Ready (w : Juncture) : Prop extends w.Open where
  dying : ∀ pins doomed, w.guard = some (.lite pins doomed) →
    w.dying ≠ [] ∧ ∀ n, doomed = some n → n ∈ w.dying
  still : w.dying = [] → w.guard = none ∧ w.collecting = false ∧ w.loose = []
  sweeping : w.kept ≠ none → w.phase = .sweeping
  parting : w.parting = []

/-- Where no destructor is running no sweep is under way. -/
theorem Ready.idle_of_dying {w : Juncture} (hready : w.Ready) (hdying : w.dying = []) : w.Idle :=
  hready.idle (hready.still hdying).1

/-- Where the mutator may run in a heap that is neither torn nor scarred. -/
structure Whole (w : Juncture) : Prop extends w.Ready where
  torn : w.torn = false
  scarred : w.scarred = false

instance {w : Juncture} : Coe w.Whole w.Ready := ⟨Whole.toReady⟩

theorem ready_rest : rest.Whole where
  idle := fun _ => ⟨rfl, (fun _ hn => by cases hn), rfl, rfl, rfl, rfl⟩
  calm := fun _ _ => rfl
  alone := fun _ => rfl
  swept := fun _ => rfl
  collected := fun _ => rfl
  dying := fun _ _ hw => by cases hw
  still := fun _ => ⟨rfl, rfl, rfl⟩
  sweeping := fun hne => absurd rfl hne
  parting := rfl
  torn := rfl
  scarred := rfl

/-- The heap is neither torn nor scarred. -/
def Intact (w : Juncture) : Prop := w.torn = false ∧ w.scarred = false

theorem Whole.intact {w : Juncture} (hw : w.Whole) : w.Intact := ⟨hw.torn, hw.scarred⟩

/-- A failure may unwind through whatever is under way, in a heap that fatal errors may tear. -/
def Unwinds (w : Juncture) : Prop := w.torn = true ∧ w.scarred = true

/-- What is counted covers what is owed: exactly, unless the heap may be torn. -/
def Covers (w : Juncture) (owed paid : Nat) : Prop := owed ≤ paid ∧ (w.torn = false → paid = owed)

section

variable {w : Juncture} {owed paid : Nat}

theorem Covers.le (hc : w.Covers owed paid) : owed ≤ paid := hc.1

theorem Covers.eq (hc : w.Covers owed paid) (hw : w.torn = false) : paid = owed := hc.2 hw

theorem Covers.of_eq (heq : paid = owed) : w.Covers owed paid := ⟨heq.ge, fun _ => heq⟩

theorem Covers.congr {owed' : Nat} (hc : w.Covers owed paid) (heq : owed' = owed) :
    w.Covers owed' paid := heq ▸ hc

/-- What is owed and paid besides makes no difference. -/
theorem covers_add_iff {k : Nat} : w.Covers (owed + k) (paid + k) ↔ w.Covers owed paid := by
  unfold Covers
  rw [Nat.add_le_add_iff_right, Nat.add_right_cancel_iff]

end

end Juncture

/-- The guards that a handle is. -/
def Handle.guards : Handle → Nat
  | .inhibitor => 1
  | _ => 0

/-- The explicit root that a handle is. -/
def Handle.root? : Handle → Option (NodeId × Nat)
  | .root n slot => some (n, slot)
  | _ => none

/-- The slot of the weak reference that a handle is. -/
def Handle.weakSlot? : Handle → Option Nat
  | .weak slot => some slot
  | _ => none

/-- How a destructor may have ended: it has returned, unless the heap may be scarred. -/
def Fate.Ends (scarred : Bool) (last : Fate) : Prop :=
  last = .returned ∨ scarred = true ∧ last = .unwound

namespace Heap

/-- The references to a node that its count stands for. -/
def debts (h : Heap) (w : Juncture) (n : NodeId) : Nat :=
  h.holders n + w.pins.count n + w.flight.count n

/-- What registered root sources designate, there or not. -/
def sourced (h : Heap) : List NodeId :=
  (h.roots.external.toList.filterMap id).flatMap fun s =>
    (h.sources[s]?.map RootSource.nodes).getD []

/-- The roots that hold no count and yet keep their nodes, under the law. -/
def uncounted (h : Heap) (law : Law) : List NodeId :=
  h.stackedRoots ++ if law.pinning then h.sourced else []

/-- The explicit roots that can still be dropped, with their slots. -/
def rootTokens (h : Heap) (w : Juncture) : List (NodeId × Nat) :=
  w.rooted ++ h.handles.filterMap fun x => x.2.root?

/-- The weak references that can still be dropped, by their slots. -/
def weakTokens (h : Heap) (w : Juncture) : List Nat :=
  w.referring ++ h.handles.filterMap fun x => x.2.weakSlot?

/-- What the mutator has lost without dropping it, one by one. -/
def lostHandles (h : Heap) : List Handle := h.lost.flatMap fun x => List.replicate x.2 x.1

/-- The explicit roots there are, lost ones included, with their slots. -/
def liveRoots (h : Heap) (w : Juncture) : List (NodeId × Nat) :=
  h.rootTokens w ++ h.lostHandles.filterMap Handle.root?

/-- The weak references there are, lost ones included, by their slots. -/
def liveWeaks (h : Heap) (w : Juncture) : List Nat :=
  h.weakTokens w ++ h.lostHandles.filterMap Handle.weakSlot?

/-- The guards of the mutator, lost ones included. -/
def guards (h : Heap) : Nat :=
  (h.handles.map fun x => x.2.guards).sum + (h.lost.map fun x => x.2 * x.1.guards).sum

/-- The bytes of the nodes that have storage. -/
def storageBytes (h : Heap) : Nat :=
  (h.nodes.toList.map fun node => if node.stage = .allocated then node.kind.size else 0).sum

/-- The number of nodes that have storage. -/
def allocatedCount (h : Heap) : Nat :=
  (h.nodes.toList.map fun node => if node.stage = .allocated then 1 else 0).sum

/-- The number of nodes whose storage has gone back. -/
def freedCount (h : Heap) : Nat :=
  (h.nodes.toList.map fun node => if node.stage = .freed then 1 else 0).sum

/-- The nodes on the reachable list, each with whether its payload has been dropped. -/
def keeps (h : Heap) : List (NodeId × Bool) :=
  (h.rings.toList reachableList).map fun n => (n, h.isDetached n)

/-- As between full collections: the reachable list is empty, and what is on the live list is
marked. -/
def Settled (h : Heap) : Prop :=
  h.rings.toList reachableList = [] ∧
    ∀ n ∈ h.rings.toList liveList, (h.status n).contains .mark = h.cycle

/-- What has befallen a node is in keeping with what is left of it: nothing as long as it has its
payload, and of its storage nothing before its destructor has ended, as `last` says. -/
def TimelyFor (h : Heap) (n : NodeId) (last : Fate) : Prop :=
  (h.nodes.size ≤ n → h.fates n = []) ∧ ((h.payload? n).isSome → h.fates n = []) ∧
    (h.payload? n = none → h.isAllocated n = true → h.fates n = [.started, last]) ∧
    h.fates n <+: [.started, last, .freed]

/-- What has befallen a node is in keeping with what is left of it. -/
def Timely (h : Heap) (scarred : Bool) (n : NodeId) : Prop :=
  ∃ last, Fate.Ends scarred last ∧ h.TimelyFor n last

section

variable {h h' : Heap} {n : NodeId} {scarred : Bool} {last : Fate}

theorem TimelyFor.absent (ht : h.TimelyFor n last) (hn : h.nodes.size ≤ n) : h.fates n = [] :=
  ht.1 hn

theorem TimelyFor.whole (ht : h.TimelyFor n last) (hn : (h.payload? n).isSome) : h.fates n = [] :=
  ht.2.1 hn

theorem TimelyFor.bare (ht : h.TimelyFor n last) (hn : h.payload? n = none)
    (ha : h.isAllocated n = true) : h.fates n = [.started, last] :=
  ht.2.2.1 hn ha

theorem TimelyFor.ordered (ht : h.TimelyFor n last) : h.fates n <+: [.started, last, .freed] :=
  ht.2.2.2

/-- What has befallen a node stays in keeping with what is left of it, if nothing more befalls it
and no payload or storage comes back. -/
theorem Timely.of_le (ht : h.Timely scarred n) (hfates : h'.fates n = h.fates n)
    (hsize : h'.nodes.size ≤ n → h.nodes.size ≤ n)
    (hpayload : (h'.payload? n).isSome → (h.payload? n).isSome)
    (hbare : h'.payload? n = none → h'.isAllocated n = true →
      h.payload? n = none ∧ h.isAllocated n = true) : h'.Timely scarred n := by
  obtain ⟨last, hlast, ht⟩ := ht
  exact ⟨last, hlast, fun hn => hfates.trans (ht.absent (hsize hn)),
    fun hn => hfates.trans (ht.whole (hpayload hn)),
    fun hn ha => hfates.trans (ht.bare (hbare hn ha).1 (hbare hn ha).2), hfates ▸ ht.ordered⟩

/-- What has befallen a node stays in keeping with what is left of it if neither changes. -/
theorem Timely.congr (ht : h.Timely scarred n) (hsize : h'.nodes.size = h.nodes.size)
    (hpayload : (h'.payload? n).isSome = (h.payload? n).isSome)
    (halloc : h'.isAllocated n = h.isAllocated n) (hfates : h'.fates n = h.fates n) :
    h'.Timely scarred n := by
  refine ht.of_le hfates (fun hn => hsize ▸ hn) (fun hn => hpayload ▸ hn) fun hn ha => ⟨?_, ?_⟩
  · rwa [← Option.not_isSome_iff_eq_none, ← hpayload, Option.not_isSome_iff_eq_none]
  · rwa [← halloc]

theorem Timely.whole (ht : h.Timely scarred n) (hn : (h.payload? n).isSome) : h.fates n = [] := by
  obtain ⟨_, -, ht⟩ := ht
  exact ht.whole hn

/-- What a full collection keeps is the same if and only if the reachable list and its nodes are. -/
theorem keeps_eq_iff : h'.keeps = h.keeps ↔
    h'.rings.toList reachableList = h.rings.toList reachableList ∧
      ∀ n ∈ h.rings.toList reachableList, h'.isDetached n = h.isDetached n := by
  have hfst : ∀ k : Heap, k.keeps.map Prod.fst = k.rings.toList reachableList := fun k => by
    unfold keeps
    rw [List.map_map]
    exact List.map_id _
  constructor
  · intro heq
    have hlist := congrArg (List.map Prod.fst) heq
    rw [hfst, hfst] at hlist
    refine ⟨hlist, fun n hn => ?_⟩
    unfold keeps at heq
    rw [hlist] at heq
    exact congrArg Prod.snd (List.map_inj_left.1 heq n hn)
  · rintro ⟨hlist, hdetached⟩
    unfold keeps
    rw [hlist]
    exact List.map_congr_left fun n hn => by rw [hdetached n hn]

end

/-- A node that is about to be given back: nothing counts it, lists it or weakly refers to it. -/
def Doomed (h : Heap) (n : NodeId) : Prop :=
  h.isAllocated n = true ∧ (h.status n).count = 0 ∧ n ∉ h.moribund ∧
    (∀ l, n ∉ h.rings.toList l) ∧ ∀ e ∈ h.roots.weak.toList, e.key ≠ some n

section

variable {h : Heap} {n : NodeId}

theorem Doomed.allocated (hd : h.Doomed n) : h.isAllocated n = true := hd.1

theorem Doomed.count (hd : h.Doomed n) : (h.status n).count = 0 := hd.2.1

theorem Doomed.unqueued (hd : h.Doomed n) : n ∉ h.moribund := hd.2.2.1

theorem Doomed.unlisted (hd : h.Doomed n) : ∀ l, n ∉ h.rings.toList l := hd.2.2.2.1

theorem Doomed.unkeyed (hd : h.Doomed n) : ∀ e ∈ h.roots.weak.toList, e.key ≠ some n :=
  hd.2.2.2.2

end

/-- What is off the list with what is marked reads as it did at the last flip. -/
def Lags (h : Heap) (w : Juncture) : Prop :=
  ∀ l, w.markedList = some l → ∀ n, ¬w.Takes n → h.isAllocated n = true → n ∉ h.rings.toList l →
    (h.readsMarked n = false ↔ n ∈ Flip.lastUnmarked h.flips)

end Heap

/-- What holds of a heap at a juncture. -/
structure Invariant (law : Law) (w : Juncture) (h : Heap) : Prop where
  /-- A count that does not stick covers the references. -/
  covered : ∀ n, (h.status n).isSaturated = true ∨ w.Covers (h.debts w n) (h.status n).count
  /-- What is referred to has storage. -/
  grounded : ∀ n, 0 < h.debts w n → h.isAllocated n = true
  nodup_moribund : h.moribund.Nodup
  mem_moribund : ∀ n, n ∈ h.moribund ↔
    h.isAllocated n = true ∧ (h.status n).contains .moribund = true
  rings : h.rings.Sound
  size_sentinels : h.rings.sentinels.size = 2
  size_nodes : h.rings.nodes.size = h.nodes.size
  listed : ∀ l n, n ∈ h.rings.toList l → h.isAllocated n = true
  /-- A node whose payload has not been dropped is on one of the lists. -/
  attached : ∀ n, n ∉ w.loose → h.isAllocated n = true → h.isDetached n = false →
    n ∈ h.rings.toList liveList ∨ n ∈ h.rings.toList reachableList
  /-- What is on the reachable list is marked, unless the heap may be scarred. -/
  marked : w.scarred = false →
    ∀ n ∈ h.rings.toList reachableList, (h.status n).contains .mark = h.cycle
  /-- Outside full collections there is only the live list, and everything on it is marked, unless
  the heap may be scarred. -/
  settled : w.scarred = false → w.guard ≠ some .full → h.rings.toList reachableList = [] ∧
    ∀ n ∈ h.rings.toList liveList, (h.status n).contains .mark = h.cycle
  /-- How nodes read follows from flip to flip. What reads as unmarked at the last one has been
  given storage before. -/
  flips : w.scarred = false → Flip.Alternating h.flips ∧
    ∀ n ∈ Flip.lastUnmarked h.flips, h.stage n ≠ .unborn
  /-- A node that is not on the list with what is marked reads as it did at the last flip, unless it
  has just been taken off that list. -/
  lagging : w.scarred = false → h.Lags w
  /-- A node is detached exactly when its payload has been dropped. -/
  emptied : ∀ n, n ∉ w.dropping → h.isAllocated n = true →
    (h.isDetached n = true ↔ h.payload? n = none)
  dropping : ∀ n ∈ w.dropping, h.isAllocated n = true ∧ h.isDetached n = true
  /-- What a full collection that is sweeping has found reachable stays as it is. -/
  kept : ∀ l, w.kept = some l → h.keeps = l
  started : ∀ n ∈ w.started, n < h.nodes.size ∧ h.fates n = [.started]
  timely : ∀ n, n ∉ w.started → h.Timely w.scarred n
  /-- A payload belongs to a node that has storage or is about to. -/
  owned : ∀ n, (h.payload? n).isSome → h.isAllocated n = true ∨ n ∈ w.building
  building : ∀ n ∈ w.building,
    h.stage n = .unborn ∧ (h.payload? n).isSome ∧ h.status n = .fresh false
  /-- A node stays as it is known to be as long as it is being built. -/
  planned : ∀ n kind p, w.plans n = some (kind, p) →
    n < h.nodes.size ∧ (n ∈ w.building → h.kind n = kind ∧ h.payload? n = some p)
  stacked : ∀ n ∈ h.uncounted law, h.isAllocated n = true
  pins : law.pinning = true → ∀ s, some s ∈ h.roots.external →
    ∃ source, h.sources[s]? = some source ∧ source.pins = true
  /-- While a lite sweep runs, what roots without a count designate is pinned. -/
  sheltered : ∀ pins doomed, w.guard = some (.lite pins doomed) → ∀ n ∈ h.uncounted law, n ∈ pins
  weakKeys : ∀ e ∈ h.roots.weak.toList, ∀ key, e.key = some key →
    h.isAllocated key = true ∧ (h.status key).contains .weakKey = true
  hollow : ∀ e ∈ h.roots.weak.toList, e.key = none → e = Collector.hollow
  /-- Every explicit root has a slot of its own with its node in it. -/
  explicit : h.roots.explicit.OwnedBy ((h.liveRoots w).map Prod.swap)
  /-- Every weak reference has a slot of its own. -/
  weak : h.roots.weak.OccupiedBy (h.liveWeaks w)
  doomed : ∀ n, w.doomed = some n → h.Doomed n
  inhibitors : h.inhibitors = h.guards + w.guards
  collecting : h.collecting = w.collecting
  /-- A fatal error may leave the collector in any phase. -/
  phase : w.torn = false → h.phase = w.phase
  dying : h.dying = w.dying
  memory : h.memory.Sound
  laid : h.memory.Laid
  backed : ∀ n, h.isAllocated n = true → h.memory.Backs law.tidy (h.block n) (h.kind n).size
  /-- The block of a node is marked as holding one. -/
  bitmap : ∀ n, h.isAllocated n = true → h.memory.isMarked (h.block n) = true
  /-- No two nodes share a block. -/
  apart : ∀ m n, h.isAllocated m = true → h.isAllocated n = true → h.block m = h.block n → m = n
  bytes : w.Covers h.storageBytes h.memory.bytesAllocated
  nodeCount : h.nodeCount = h.allocatedCount
  ledger : w.Intact → Ledger h.roots.weak h.pending h.chronicle w.parting
  current : w.Intact →
    Current h.stage h.isDetached h.roots.weak h.chronicle.making? w.loose w.kept
  deaths : w.Intact → Deaths h.history h.phase h.chronicle.makings h.chronicle.given
    h.chronicle.queued h.chronicle.queueings w.parting
    (Due w.loose w.dropping w.kept (h.rings.toList liveList))
  accounts : w.Intact → Accounts h.freedCount h.stats h.chronicle.sweeps h.chronicle.collections
    w.reclaimed
  swept : ∀ l, w.swept = some l → h.chronicle.sweeps = l
  collected : ∀ l, w.collected = some l → h.chronicle.collections = l
  past : w.past.Precedes h.chronicle
  /-- Only nodes that have storage are given back. -/
  misfrees : h.chronicle.misfrees = 0
  /-- The trigger is never below its minimum. -/
  floor : h.config.minTrigger ≤ h.trigger

/-- An explicit root that can still be dropped has its node in its slot. -/
theorem Invariant.tokens {law : Law} {w : Juncture} {h : Heap} (inv : Invariant law w h)
    (n : NodeId) (slot : Nat) (hmem : (n, slot) ∈ h.rootTokens w) :
    h.roots.explicit.get? slot = some n :=
  inv.explicit.own (slot, n) (List.mem_map.2 ⟨(n, slot), List.mem_append_left _ hmem, rfl⟩)

/-- A weak reference that can still be dropped has an entry in its slot. -/
theorem Invariant.weakTokens {law : Law} {w : Juncture} {h : Heap} (inv : Invariant law w h)
    (slot : Nat) (hmem : slot ∈ h.weakTokens w) : (h.roots.weak.get? slot).isSome :=
  (inv.weak.mem_slots slot).1 (List.mem_append_left _ hmem)

/-- No two weak references that can still be dropped have the same slot. -/
theorem Invariant.nodup_weakTokens {law : Law} {w : Juncture} {h : Heap} (inv : Invariant law w h) :
    (h.weakTokens w).Nodup := inv.weak.distinct.of_append_left

/-- A count that does not stick is the number of references, unless the heap may be torn. -/
theorem Invariant.count {law : Law} {w : Juncture} {h : Heap} (inv : Invariant law w h) (n : NodeId)
    (hw : w.torn = false := by rfl) :
    (h.status n).isSaturated = true ∨ (h.status n).count = h.debts w n :=
  (inv.covered n).imp_right fun hc => hc.eq hw

/-- Outside full collections everything on the live list is marked. -/
theorem Juncture.markedList_eq {w : Juncture} (hw : w.guard ≠ some .full) :
    w.markedList = some liveList := by
  unfold markedList
  split
  · exact absurd ‹_› hw
  · rfl

theorem Juncture.markedList_of_full {w : Juncture} (hw : w.guard = some .full) :
    w.markedList = w.kept.map fun _ => reachableList := by
  unfold markedList
  rw [hw]

/-- While a full collection marks, there is no list with what is marked. -/
theorem Juncture.markedList_full {w : Juncture} (hw : w.kept = none) :
    markedList { w with guard := some .full } = none :=
  congrArg (Option.map fun _ => reachableList) hw

theorem Juncture.takes_iff {w : Juncture} {n : NodeId} : w.Takes n ↔
    ∃ pins doomed, w.guard = some (.lite pins doomed) ∧ (n ∈ w.loose ∨ doomed = some n) := by
  unfold Takes
  split
  case h_1 pins doomed hw =>
    refine ⟨fun hn => ⟨pins, doomed, hw, hn⟩, ?_⟩
    rintro ⟨pins', doomed', hw', hn⟩
    cases hw.symm.trans hw'
    exact hn
  case h_2 hw => exact iff_of_false id fun ⟨pins, doomed, hw', _⟩ => hw pins doomed hw'

/-- Where no collection is under way, it can be said that there is none. -/
theorem Juncture.eq_unguarded {w : Juncture} (hguard : w.guard = none) :
    w = { w with guard := none } := by
  cases w
  cases hguard
  rfl

/-- So it can be that no lite sweep is being watched. -/
theorem Juncture.eq_unwatched {w : Juncture} (hguard : w.guard = none) (hswept : w.swept = none) :
    w = { w with guard := none, swept := none } := by
  cases w
  cases hguard
  cases hswept
  rfl

/-- Where no collection is under way, none takes a node. -/
theorem Juncture.not_takes {w : Juncture} (hw : w.guard = none) (n : NodeId) : ¬w.Takes n := by
  rw [takes_iff, hw]
  rintro ⟨_, _, ⟨⟩, _⟩

/-- Where no collection is under way the cycle may be flipped. -/
theorem Invariant.turns {law : Law} {w : Juncture} {h : Heap} (inv : Invariant law w h)
    (hscarred : w.scarred = false) (hguard : w.guard = none) : h.Turns := by
  have hfull : w.guard ≠ some .full := by simp [hguard]
  refine Heap.turns_of_lagging (inv.listed liveList) (fun n hn => ?_) fun n => ?_
  · exact beq_iff_eq.2 ((inv.settled hscarred hfull).2 n hn)
  · exact inv.lagging hscarred liveList (Juncture.markedList_eq hfull) n
      (Juncture.not_takes hguard n)

/-- A heap that is accounted for in full is so also if it may be torn. -/
theorem Invariant.tear {law : Law} {w : Juncture} {h : Heap} (inv : Invariant law w h) :
    Invariant law { w with torn := true } h :=
  { inv with
    covered := fun n => (inv.covered n).imp_right fun hc => ⟨hc.le, fun hw => by cases hw⟩
    phase := fun hw => by cases hw
    bytes := ⟨inv.bytes.le, fun hw => by cases hw⟩
    ledger := fun hw => by cases hw.1
    current := fun hw => by cases hw.1
    deaths := fun hw => by cases hw.1
    accounts := fun hw => by cases hw.1 }

/-- A heap that is not scarred satisfies what is asked of one that may be. -/
theorem Invariant.scar {law : Law} {w : Juncture} {h : Heap} (inv : Invariant law w h)
    (hw : w.scarred = false) : Invariant law { w with scarred := true } h :=
  { inv with
    marked := fun hs => by cases hs
    settled := fun hs => by cases hs
    flips := fun hs => by cases hs
    lagging := fun hs => by cases hs
    timely := fun n hn => by
      obtain ⟨last, hlast, ht⟩ := inv.timely n hn
      refine ⟨last, .inl (hlast.resolve_right fun hs => ?_), ht⟩
      rw [hw] at hs
      cases hs.1
    ledger := fun hs => by cases hs.2
    current := fun hs => by cases hs.2
    deaths := fun hs => by cases hs.2
    accounts := fun hs => by cases hs.2 }

/-! ## The start -/

/-- A collector over memory of its own that will earn the given headroom. -/
def Heap.start (config : Settings) (limit quarantine : Option Nat) (headroom : Nat → Nat) : Heap :=
  { Heap.new config (Memory.Allocator.new limit quarantine) with headroom }

/-- The invariant holds at the start, under every law. -/
theorem Invariant.start (law : Law) (config : Settings) (limit quarantine : Option Nat)
    (headroom : Nat → Nat) :
    Invariant law .rest (Heap.start config limit quarantine headroom) := by
  have hrings : (Heap.start config limit quarantine headroom).rings.Holds fun _ => [] :=
    Rings.holds_newList
  have hlist : ∀ l, (Heap.start config limit quarantine headroom).rings.toList l = [] := fun l =>
    congrFun hrings.toList_eq l
  have hroots : (Heap.start config limit quarantine headroom).uncounted law = [] := by
    unfold Heap.uncounted
    cases law.pinning <;> rfl
  exact
    { covered := fun n => .inr (.of_eq (Status.count_fresh false))
      grounded := fun n hn => absurd hn (Nat.lt_irrefl 0)
      nodup_moribund := List.nodup_nil
      mem_moribund := fun n => ⟨fun hn => (List.not_mem_nil hn).elim, fun hn => by cases hn.1⟩
      rings := hrings.sound
      size_sentinels := rfl
      size_nodes := rfl
      listed := fun l n hn => by
        rw [hlist] at hn
        cases hn
      attached := fun n _ hn => by cases hn
      marked := fun _ n hn => by
        rw [hlist] at hn
        cases hn
      settled := fun _ _ => ⟨hlist _, fun n hn => by
        rw [hlist] at hn
        cases hn⟩
      flips := fun _ => ⟨trivial, fun n hn => by cases hn⟩
      lagging := fun _ _ _ n _ hn => by cases hn
      emptied := fun n _ hn => by cases hn
      dropping := fun n hn => by cases hn
      kept := fun l hl => by cases hl
      started := fun n hn => by cases hn
      timely := fun n _ => ⟨.returned, .inl rfl, fun _ => rfl, fun _ => rfl,
        fun _ hn => (by cases hn), List.nil_prefix⟩
      owned := fun n hn => by cases hn
      building := fun n hn => by cases hn
      planned := fun n kind p hn => by cases hn
      stacked := fun n hn => by
        rw [hroots] at hn
        cases hn
      pins := fun _ s hs => (Array.not_mem_empty _ hs).elim
      sheltered := fun _ _ hw => by cases hw
      weakKeys := fun e he => by cases he
      hollow := fun e he => by cases he
      explicit := .empty
      weak := .empty
      doomed := fun n hn => by cases hn
      inhibitors := rfl
      collecting := rfl
      phase := fun _ => rfl
      dying := rfl
      memory := (Memory.Allocator.sound_new limit quarantine).assistOnly
      laid := (Memory.Allocator.laid_new limit quarantine).assistOnly
      backed := fun n hn => by cases hn
      bitmap := fun n hn => by cases hn
      apart := fun m n hm => by cases hm
      bytes := .of_eq (by cases quarantine <;> rfl)
      nodeCount := rfl
      ledger := fun _ => .empty
      current := fun _ => .empty
      deaths := fun _ => .empty
      accounts := fun _ => .zero
      swept := fun l hl => by cases hl
      collected := fun l hl => by cases hl
      past := .empty _
      misfrees := rfl
      floor := Nat.le_max_right _ _ }

end HybridHeap
