import HybridHeap.Proofs.Invariant
import HybridHeap.Proofs.Outcome

/-!
# Counting keeps the invariant

Counting a reference up or down moves one reference between the heap's counts and what is in flight,
and nothing else. What else an operation leaves alone is said by four relations: `Restamped` for
everything besides statuses and the queue, `Recounted` if only the flags that go with a count have
changed, `Raised` when only the counts of given nodes went up, and `Lowered` when counts only went
down. The last two also say what becomes of the queue, which for counts that go down is `Eased`.
-/

namespace HybridHeap

/-- A node apart from its status. -/
def Node.shell (node : Node) : Node := { node with status := .fresh false }

/-- The heaps differ in statuses and queues only. -/
structure Restamped (h h' : Heap) : Prop where
  eq : h' = { h with
    nodes := h'.nodes, moribund := h'.moribund, pending := h'.pending, chronicle := h'.chronicle }
  shells : h'.nodes.map Node.shell = h.nodes.map Node.shell

/-- The heaps differ in counts, in the flags that go with them, and in the queues. -/
structure Recounted (h h' : Heap) : Prop extends Restamped h h' where
  flags : ∀ n f, f ≠ .moribund → f ≠ .referenced →
    (h'.status n).contains f = (h.status n).contains f

namespace Restamped

variable {h h' h'' : Heap}

theorem refl (h : Heap) : Restamped h h := ⟨rfl, rfl⟩

theorem trans (h₁ : Restamped h h') (h₂ : Restamped h' h'') : Restamped h h'' where
  eq := by
    rw [h₂.eq, h₁.eq]
  shells := h₂.shells.trans h₁.shells

/-- What a shell shows of a node is the same in both heaps. -/
theorem map_eq {α : Type} (hr : Restamped h h') {p : Node → α}
    (hp : ∀ node, p node.shell = p node) (n : NodeId) :
    h'.nodes[n]?.map p = h.nodes[n]?.map p := by
  have hshell : ∀ nodes : Array Node, nodes[n]?.map p = (nodes.map Node.shell)[n]?.map p := by
    intro nodes
    rw [Array.getElem?_map, Option.map_map]
    congr 1
    funext node
    exact (hp node).symm
  rw [hshell, hshell h.nodes, hr.shells]

/-- What a shell shows of the nodes adds up to the same in both heaps. -/
theorem sum_eq (hr : Restamped h h') {g : Node → Nat} (hg : ∀ node, g node.shell = g node) :
    (h'.nodes.toList.map g).sum = (h.nodes.toList.map g).sum := by
  have hshell : ∀ nodes : Array Node,
      nodes.toList.map g = ((nodes.map Node.shell).toList.map g) := by
    intro nodes
    rw [Array.toList_map, List.map_map]
    congr 1
    funext node
    exact (hg node).symm
  rw [hshell, hshell h.nodes, hr.shells]

theorem size_nodes (hr : Restamped h h') : h'.nodes.size = h.nodes.size := by
  have hsize := congrArg Array.size hr.shells
  simpa using hsize

theorem stage (hr : Restamped h h') : h'.stage = h.stage := by
  funext n
  unfold Heap.stage
  rw [hr.map_eq fun _ => rfl]

theorem isAllocated (hr : Restamped h h') : h'.isAllocated = h.isAllocated := by
  funext n
  unfold Heap.isAllocated
  rw [hr.map_eq fun _ => rfl]

theorem kind (hr : Restamped h h') : h'.kind = h.kind := by
  funext n
  unfold Heap.kind
  rw [hr.map_eq fun _ => rfl]

theorem block (hr : Restamped h h') : h'.block = h.block := by
  funext n
  unfold Heap.block
  rw [hr.map_eq fun _ => rfl]

theorem payload? (hr : Restamped h h') : h'.payload? = h.payload? := by
  funext n
  rw [Heap.payload?_eq_join, Heap.payload?_eq_join, hr.map_eq fun _ => rfl]

theorem roots (hr : Restamped h h') : h'.roots = h.roots := by rw [hr.eq]

theorem handles (hr : Restamped h h') : h'.handles = h.handles := by rw [hr.eq]

theorem lost (hr : Restamped h h') : h'.lost = h.lost := by rw [hr.eq]

theorem sources (hr : Restamped h h') : h'.sources = h.sources := by rw [hr.eq]

theorem ringsEq (hr : Restamped h h') : h'.rings = h.rings := by rw [hr.eq]

theorem cycle (hr : Restamped h h') : h'.cycle = h.cycle := by rw [hr.eq]

theorem flips (hr : Restamped h h') : h'.flips = h.flips := by rw [hr.eq]

theorem fates (hr : Restamped h h') : h'.fates = h.fates := by
  have hhistory : h'.history = h.history := by rw [hr.eq]
  funext n
  unfold Heap.fates
  rw [hhistory]

theorem holders (hr : Restamped h h') : h'.holders = h.holders := by
  funext n
  have hpayload : h'.payloadHolders n = h.payloadHolders n := hr.sum_eq fun _ => rfl
  unfold Heap.holders Heap.handleHolders Heap.rootHolders Heap.weakHolders Heap.lostHolders
  rw [hpayload, hr.roots, hr.handles, hr.lost]

theorem debts (hr : Restamped h h') (w : Juncture) : h'.debts w = h.debts w := by
  funext n
  unfold Heap.debts
  rw [hr.holders]

theorem stackedRoots (hr : Restamped h h') : h'.stackedRoots = h.stackedRoots := by
  unfold Heap.stackedRoots
  rw [hr.roots]

theorem pinned (hr : Restamped h h') : h'.pinned = h.pinned := by
  unfold Heap.pinned Heap.externalRoots Heap.designated
  rw [hr.stackedRoots, hr.roots, hr.sources, hr.isAllocated]

theorem uncounted (hr : Restamped h h') (law : Law) : h'.uncounted law = h.uncounted law := by
  unfold Heap.uncounted Heap.sourced
  rw [hr.stackedRoots, hr.roots, hr.sources]

end Restamped

namespace Recounted

variable {h h' h'' : Heap}

theorem refl (h : Heap) : Recounted h h := ⟨.refl h, fun _ _ _ _ => rfl⟩

theorem trans (h₁ : Recounted h h') (h₂ : Recounted h' h'') : Recounted h h'' where
  toRestamped := h₁.toRestamped.trans h₂.toRestamped
  flags := fun n f hm hr => (h₂.flags n f hm hr).trans (h₁.flags n f hm hr)

theorem isDetached (hr : Recounted h h') : h'.isDetached = h.isDetached := by
  funext n
  exact hr.flags n .detached (by decide) (by decide)

end Recounted

/-- Only the counts of given nodes have changed, and they went up. -/
structure Raised (ns : List NodeId) (h h' : Heap) : Prop extends Recounted h h' where
  others : ∀ n ∉ ns, h'.status n = h.status n
  queue : ∀ n ∉ ns, n ∈ h'.moribund ↔ n ∈ h.moribund
  stuck : ∀ n, (h.status n).isSaturated = true → h'.status n = h.status n
  bounded : ∀ n, (h'.status n).count ≤ (h.status n).count + ns.count n

namespace Raised

variable {h h' h'' : Heap} {ns ms : List NodeId}

theorem refl (ns : List NodeId) (h : Heap) : Raised ns h h :=
  ⟨.refl h, fun _ _ => rfl, fun _ _ => .rfl, fun _ _ => rfl, fun _ => Nat.le_add_right _ _⟩

theorem trans (h₁ : Raised ns h h') (h₂ : Raised ms h' h'') : Raised (ns ++ ms) h h'' where
  toRecounted := h₁.toRecounted.trans h₂.toRecounted
  others := by
    intro n hn
    rw [List.mem_append, not_or] at hn
    rw [h₂.others n hn.2, h₁.others n hn.1]
  queue := by
    intro n hn
    rw [List.mem_append, not_or] at hn
    rw [h₂.queue n hn.2, h₁.queue n hn.1]
  stuck := by
    intro n hn
    have h1 := h₁.stuck n hn
    rw [h₂.stuck n (by rwa [h1]), h1]
  bounded := by
    intro n
    have h1 := h₁.bounded n
    have h2 := h₂.bounded n
    rw [List.count_append]
    omega

end Raised

/-- Counts have only gone down, those that stick have not, and what has been queued are the nodes
whose count has reached zero. -/
structure Eased (h h' : Heap) : Prop where
  le : ∀ n, (h'.status n).count ≤ (h.status n).count
  stuck : ∀ n, (h.status n).isSaturated = true → (h'.status n).isSaturated = true
  queued : ∀ n ∈ h.moribund, n ∈ h'.moribund
  orphaned : ∀ n, (h'.status n).count < (h.status n).count → (h'.status n).count = 0 →
    n ∈ h'.moribund
  fresh : ∀ n ∈ h'.moribund, n ∈ h.moribund ∨
    (h'.status n).count < (h.status n).count ∧ (h'.status n).count = 0

namespace Eased

variable {h h' h'' : Heap}

/-- What changes neither counts nor the queue eases them. -/
theorem of_eq (hcount : ∀ n, (h'.status n).count = (h.status n).count)
    (hqueue : h'.moribund = h.moribund) : Eased h h' where
  le := fun n => (hcount n).le
  stuck := fun n hn => by
    rw [Status.isSaturated_iff, hcount, ← Status.isSaturated_iff]
    exact hn
  queued := fun n hn => hqueue ▸ hn
  orphaned := fun n hlt => absurd hlt (hcount n).not_lt
  fresh := fun n hn => .inl (hqueue ▸ hn)

theorem trans (h₁ : Eased h h') (h₂ : Eased h' h'') : Eased h h'' where
  le := fun n => Nat.le_trans (h₂.le n) (h₁.le n)
  stuck := fun n hn => h₂.stuck n (h₁.stuck n hn)
  queued := fun n hn => h₂.queued n (h₁.queued n hn)
  orphaned := by
    intro n hlt h0
    have hle := h₂.le n
    -- Either the second step took the count to zero or it was there already.
    by_cases hstep : (h''.status n).count < (h'.status n).count
    · exact h₂.orphaned n hstep h0
    · exact h₂.queued n (h₁.orphaned n (by omega) (by omega))
  fresh := by
    intro n hn
    have h1 := h₁.le n
    have h2 := h₂.le n
    obtain hn | hlt := h₂.fresh n hn
    · exact (h₁.fresh n hn).imp_right fun hlt => by omega
    · exact .inr (by omega)

end Eased

/-- Counts have only gone down, and nothing else has changed. -/
structure Lowered (h h' : Heap) : Prop extends Recounted h h', Eased h h' where
  same : ∀ n, (h'.status n).count = (h.status n).count → h'.status n = h.status n

namespace Lowered

variable {h h' h'' : Heap}

theorem refl (h : Heap) : Lowered h h := ⟨.refl h, .of_eq (fun _ => rfl) rfl, fun _ _ => rfl⟩

theorem trans (h₁ : Lowered h h') (h₂ : Lowered h' h'') : Lowered h h'' where
  toRecounted := h₁.toRecounted.trans h₂.toRecounted
  toEased := h₁.toEased.trans h₂.toEased
  same := by
    intro n hn
    have h1 := h₁.le n
    have h2 := h₂.le n
    rw [h₂.same n (by omega), h₁.same n (by omega)]

/-- What befalls a node makes no difference to its count. -/
theorem befall (hl : Lowered h h') (n : NodeId) (f : Fate) :
    Lowered (h.befall n f) (h'.befall n f) :=
  { hl with
    eq := congrArg (·.befall n f) hl.eq
    shells := hl.shells }

end Lowered

/-! ## Transporting the invariant -/

variable {law : Law} {w : Juncture} {h h' : Heap}

/-- A heap whose statuses and queue changed satisfies the invariant if they do. -/
theorem Invariant.restamp (inv : Invariant law w h) (hr : Restamped h h')
    (flight loose dropping : List NodeId)
    (hcount : ∀ n, (h'.status n).isSaturated = true ∨
      w.Covers (h.debts { w with flight } n) (h'.status n).count)
    (hgrounded : ∀ n, 0 < h.debts { w with flight } n → h.isAllocated n = true)
    (hnodup : h'.moribund.Nodup)
    (hmem : ∀ n, n ∈ h'.moribund ↔
      h.isAllocated n = true ∧ (h'.status n).contains .moribund = true)
    (hbuilding : ∀ n, h.isAllocated n = false → h'.status n = h.status n)
    (hdoomed : ∀ n, w.doomed = some n → (h'.status n).count = 0 ∧ n ∉ h'.moribund)
    (hattached : ∀ n ∉ loose, h.isAllocated n = true → h'.isDetached n = false →
      n ∈ h.rings.toList liveList ∨ n ∈ h.rings.toList reachableList)
    (hmarked : w.scarred = false →
      ∀ n ∈ h.rings.toList reachableList, (h'.status n).contains .mark = h.cycle)
    (hsettled : w.scarred = false → w.guard ≠ some .full →
      ∀ n ∈ h.rings.toList liveList, (h'.status n).contains .mark = h.cycle)
    (hmarks : w.markedList ≠ none → ∀ n, h.isAllocated n = true →
      (h'.status n).contains .mark = (h.status n).contains .mark)
    (htakes : ∀ n, w.Takes n → Juncture.Takes { w with loose } n)
    (hemptied : ∀ n ∉ dropping, h.isAllocated n = true →
      (h'.isDetached n = true ↔ h.payload? n = none))
    (hdropping : ∀ n ∈ dropping, h.isAllocated n = true ∧ h'.isDetached n = true)
    (hkept : ∀ n, ¬w.Loses n → h'.isDetached n = h.isDetached n)
    (hweakKeys : ∀ e ∈ h.roots.weak.toList, ∀ key, e.key = some key →
      (h'.status key).contains .weakKey = true)
    (hcurrent : w.Intact →
      Current h.stage h'.isDetached h.roots.weak h.chronicle.making? loose w.kept)
    (hdue : ∀ n, Due w.loose w.dropping w.kept (h.rings.toList liveList) n →
      Due loose dropping w.kept (h.rings.toList liveList) n)
    (hpending : h'.pending = h.pending) (hchronicle : h'.chronicle = h.chronicle) :
    Invariant law { w with flight, loose, dropping } h' where
  -- Counts, flags and the queue are what the hypotheses say; nothing else differs from the heap
  -- before.
  covered := by
    rw [hr.debts]
    exact hcount
  grounded := by
    rw [hr.debts, hr.isAllocated]
    exact hgrounded
  nodup_moribund := hnodup
  mem_moribund := by
    rw [hr.isAllocated]
    exact hmem
  rings := by
    rw [hr.ringsEq]
    exact inv.rings
  size_sentinels := by
    rw [hr.ringsEq]
    exact inv.size_sentinels
  size_nodes := by
    rw [hr.ringsEq, hr.size_nodes]
    exact inv.size_nodes
  listed := by
    rw [hr.ringsEq, hr.isAllocated]
    exact inv.listed
  attached := by
    rw [hr.ringsEq, hr.isAllocated]
    exact hattached
  marked := by
    rw [hr.ringsEq, hr.cycle]
    exact hmarked
  settled := by
    rw [hr.ringsEq, hr.cycle]
    exact fun hs hw => ⟨(inv.settled hs hw).1, hsettled hs hw⟩
  flips := by
    rw [hr.stage, hr.flips]
    exact inv.flips
  lagging := fun hs l hl n htaken hn hout => by
    rw [hr.isAllocated] at hn
    rw [hr.ringsEq] at hout
    unfold Heap.readsMarked
    rw [hr.flips, hr.cycle, hmarks (fun hnone => by cases hnone.symm.trans hl) n hn]
    exact inv.lagging hs l hl n (mt (htakes n) htaken) hn hout
  emptied := by
    rw [hr.isAllocated, hr.payload?]
    exact hemptied
  dropping := by
    rw [hr.isAllocated]
    exact hdropping
  kept := fun l hl => by
    have hold := inv.kept l hl
    refine (Heap.keeps_eq_iff.2 ⟨by rw [hr.ringsEq], fun n hn => hkept n ?_⟩).trans hold
    exact fun hloses => hloses l hl (n, h.isDetached n) (hold ▸ List.mem_map_of_mem hn) rfl
  started := by
    rw [hr.size_nodes, hr.fates]
    exact inv.started
  timely := fun n hn => (inv.timely n hn).congr hr.size_nodes (by rw [hr.payload?])
    (congrFun hr.isAllocated n) (congrFun hr.fates n)
  owned := by
    rw [hr.isAllocated, hr.payload?]
    exact inv.owned
  building := by
    rw [hr.stage, hr.payload?]
    intro n hn
    obtain ⟨hstage, hpayload, hstatus⟩ := inv.building n hn
    refine ⟨hstage, hpayload, (hbuilding n ?_).trans hstatus⟩
    rw [← Bool.not_eq_true, Heap.isAllocated_iff, hstage]
    decide
  planned := by
    rw [hr.size_nodes, hr.kind, hr.payload?]
    exact inv.planned
  stacked := by
    rw [hr.uncounted, hr.isAllocated]
    exact inv.stacked
  pins := by
    rw [hr.roots, hr.sources]
    exact inv.pins
  sheltered := by
    rw [hr.uncounted]
    exact inv.sheltered
  weakKeys := by
    rw [hr.roots, hr.isAllocated]
    exact fun e he key hkey => ⟨(inv.weakKeys e he key hkey).1, hweakKeys e he key hkey⟩
  hollow := by
    rw [hr.roots]
    exact inv.hollow
  explicit := by
    unfold Heap.liveRoots Heap.rootTokens Heap.lostHandles
    rw [hr.roots, hr.handles, hr.lost]
    exact inv.explicit
  weak := by
    unfold Heap.liveWeaks Heap.weakTokens Heap.lostHandles
    rw [hr.roots, hr.handles, hr.lost]
    exact inv.weak
  doomed := by
    intro n hn
    obtain ⟨h0, hnot⟩ := hdoomed n hn
    have hold := inv.doomed n hn
    refine ⟨?_, h0, hnot, ?_, ?_⟩
    · rw [hr.isAllocated]
      exact hold.allocated
    · rw [hr.ringsEq]
      exact hold.unlisted
    · rw [hr.roots]
      exact hold.unkeyed
  inhibitors := by
    have hguards : h'.guards = h.guards := by
      unfold Heap.guards
      rw [hr.handles, hr.lost]
    rw [hguards, hr.eq]
    exact inv.inhibitors
  collecting := by
    rw [hr.eq]
    exact inv.collecting
  phase := by
    rw [hr.eq]
    exact inv.phase
  dying := by
    rw [hr.eq]
    exact inv.dying
  memory := by
    rw [hr.eq]
    exact inv.memory
  backed := by
    rw [hr.isAllocated, hr.block, hr.kind, hr.eq]
    exact inv.backed
  laid := by
    rw [hr.eq]
    exact inv.laid
  bitmap := by
    rw [hr.isAllocated, hr.block, hr.eq]
    exact inv.bitmap
  apart := by
    rw [hr.isAllocated, hr.block]
    exact inv.apart
  bytes := by
    have hbytes : h'.storageBytes = h.storageBytes := hr.sum_eq fun _ => rfl
    rw [hbytes, hr.eq]
    exact inv.bytes
  nodeCount := by
    have hnodes : h'.allocatedCount = h.allocatedCount := hr.sum_eq fun _ => rfl
    rw [hnodes, hr.eq]
    exact inv.nodeCount
  ledger := by
    rw [hr.roots, hpending, hchronicle]
    exact inv.ledger
  current := by
    rw [hr.stage, hr.roots, hchronicle]
    exact hcurrent
  deaths := fun hw => by
    have hhistory : h'.history = h.history := by rw [hr.eq]
    have hphase : h'.phase = h.phase := by rw [hr.eq]
    rw [hhistory, hphase, hr.ringsEq, hchronicle]
    exact (inv.deaths hw).change fun n hn => .inr (hdue n hn)
  accounts := by
    have hfreed : h'.freedCount = h.freedCount := hr.sum_eq fun _ => rfl
    have hstats : h'.stats = h.stats := by rw [hr.eq]
    rw [hfreed, hstats, hchronicle]
    exact inv.accounts
  swept := by
    rw [hchronicle]
    exact inv.swept
  collected := by
    rw [hchronicle]
    exact inv.collected
  past := by
    rw [hchronicle]
    exact inv.past
  misfrees := by
    rw [hchronicle]
    exact inv.misfrees
  floor := by
    rw [hr.eq]
    exact inv.floor

/-- A heap that was recounted satisfies the invariant if its counts and its queue do. -/
theorem Invariant.recount (inv : Invariant law w h) (hr : Recounted h h') (flight : List NodeId)
    (hcount : ∀ n, (h'.status n).isSaturated = true ∨
      w.Covers (h.debts { w with flight } n) (h'.status n).count)
    (hgrounded : ∀ n, 0 < h.debts { w with flight } n → h.isAllocated n = true)
    (hnodup : h'.moribund.Nodup)
    (hmem : ∀ n, n ∈ h'.moribund ↔
      h.isAllocated n = true ∧ (h'.status n).contains .moribund = true)
    (hbuilding : ∀ n, h.isAllocated n = false → h'.status n = h.status n)
    (hdoomed : ∀ n, w.doomed = some n → (h'.status n).count = 0 ∧ n ∉ h'.moribund)
    (hpending : h'.pending = h.pending) (hchronicle : h'.chronicle = h.chronicle) :
    Invariant law { w with flight } h' := by
  have hmark : ∀ n, (h'.status n).contains .mark = (h.status n).contains .mark := fun n =>
    hr.flags n .mark (by decide) (by decide)
  have hweakKey : ∀ n, (h'.status n).contains .weakKey = (h.status n).contains .weakKey := fun n =>
    hr.flags n .weakKey (by decide) (by decide)
  refine inv.restamp hr.toRestamped flight w.loose w.dropping hcount hgrounded hnodup hmem hbuilding
    hdoomed ?_ ?_ ?_ (fun _ n _ => hmark n) (fun _ hn => hn) ?_ ?_
    (fun n _ => congrFun hr.isDetached n) ?_ ?_ (fun _ hn => hn) hpending hchronicle
  · rw [hr.isDetached]
    exact inv.attached
  · intro hs n hn
    rw [hmark]
    exact inv.marked hs n hn
  · intro hs hw n hn
    rw [hmark]
    exact (inv.settled hs hw).2 n hn
  · rw [hr.isDetached]
    exact inv.emptied
  · rw [hr.isDetached]
    exact inv.dropping
  · intro e he key hkey
    rw [hweakKey]
    exact (inv.weakKeys e he key hkey).2
  · rw [hr.isDetached]
    exact inv.current

/-! ## One reference more or less -/

namespace Heap

/-- A further reference in flight is one more to its target. -/
theorem debts_holding (h : Heap) (w : Juncture) (n m : NodeId) :
    h.debts (w.holding [n]) m = h.debts w m + if m = n then 1 else 0 := by
  show h.holders m + w.pins.count m + (n :: w.flight).count m = _
  rw [List.count_cons, debts]
  by_cases hmn : m = n
  · simp [hmn, Nat.add_assoc]
  · simp [hmn, Ne.symm hmn]

/-- A heap with one status replaced is restamped. -/
theorem restamped_setStatus (h : Heap) (n : NodeId) (s : Status) (q : List NodeId) :
    Restamped h { h.setStatus n s with moribund := q } where
  eq := rfl
  shells := by
    refine Array.ext_getElem? fun m => ?_
    rw [Array.getElem?_map, Array.getElem?_map]
    exact map_modifyNode (fun _ => by rfl) h n m

/-- A status set in place of one with the same other flags makes for a recounted heap. -/
theorem recounted_setStatus {n : NodeId} (hn : n < h.nodes.size) {s : Status}
    (hs : ∀ f, f ≠ .moribund → f ≠ .referenced → s.contains f = (h.status n).contains f)
    (q : List NodeId) : Recounted h { h.setStatus n s with moribund := q } where
  toRestamped := restamped_setStatus h n s q
  flags := by
    intro m f hm hr
    show ((h.setStatus n s).status m).contains f = _
    rw [status_setStatus hn]
    split_ifs with hmn
    · rw [hmn]
      exact hs f hm hr
    · rfl

/-- The statuses after one was set beside a change of the queue. -/
theorem status_setStatus_with {n : NodeId} (hn : n < h.nodes.size) (s : Status) (q : List NodeId)
    (m : NodeId) :
    ({ h.setStatus n s with moribund := q } : Heap).status m = if m = n then s else h.status m :=
  status_setStatus hn m s

end Heap

/-- What is being reclaimed is referred to by nothing. -/
theorem Invariant.debts_eq_zero_of_doomed (inv : Invariant law w h) {n : NodeId}
    (hn : w.doomed = some n) : h.debts w n = 0 := by
  have h0 := (inv.doomed n hn).count
  obtain hsat | hcount := inv.covered n
  · rw [Status.not_isSaturated_of_count_eq_zero h0] at hsat
    cases hsat
  · exact Nat.le_zero.1 (h0 ▸ hcount.le)

/-- What has no storage has no reference to it. -/
theorem Invariant.debts_eq_zero (inv : Invariant law w h) {n : NodeId}
    (hn : h.isAllocated n = false) : h.debts w n = 0 := by
  refine Nat.eq_zero_of_not_pos fun hpos => ?_
  rw [inv.grounded n hpos] at hn
  cases hn

/-- A change of the status of one node and of its place in the queue keeps the invariant if the
count is right for what is in flight afterwards. -/
theorem Invariant.recount_node (inv : Invariant law w h) {n : NodeId} {s : Status}
    {q flight : List NodeId} (hn : h.isAllocated n = true) (hd : w.doomed ≠ some n)
    (hflags : ∀ f, f ≠ .moribund → f ≠ .referenced → s.contains f = (h.status n).contains f)
    (hcount : s.isSaturated = true ∨ w.Covers (h.debts { w with flight } n) s.count)
    (hdebts : ∀ m, m ≠ n → h.debts { w with flight } m = h.debts w m)
    (hnodup : q.Nodup) (hothers : ∀ m, m ≠ n → (m ∈ q ↔ m ∈ h.moribund))
    (hself : n ∈ q ↔ s.contains .moribund = true) :
    Invariant law { w with flight } { h.setStatus n s with moribund := q } := by
  have hlt := Heap.lt_size_of_isAllocated hn
  have hstatus := Heap.status_setStatus_with hlt s q
  -- At other nodes nothing has changed, and at this one the hypotheses say what is asked.
  refine inv.recount (Heap.recounted_setStatus hlt hflags q) flight ?_ ?_ hnodup ?_ ?_ ?_ rfl rfl
  · intro m
    rw [hstatus]
    split_ifs with hmn
    · rw [hmn]
      exact hcount
    · rw [hdebts m hmn]
      exact inv.covered m
  · intro m hpos
    by_cases hmn : m = n
    · rw [hmn]
      exact hn
    · rw [hdebts m hmn] at hpos
      exact inv.grounded m hpos
  · intro m
    rw [hstatus]
    split_ifs with hmn
    · rw [hmn, hself, hn]
      simp
    · exact (hothers m hmn).trans (inv.mem_moribund m)
  · intro m hm
    rw [hstatus, if_neg]
    rintro rfl
    rw [hn] at hm
    cases hm
  · intro m hm
    have hmn : m ≠ n := by
      rintro rfl
      exact hd hm
    have hdoomed := inv.doomed m hm
    rw [hstatus, if_neg hmn]
    exact ⟨hdoomed.count, fun hq => hdoomed.unqueued ((hothers m hmn).1 hq)⟩

/-- A change of the flags of one node, besides the one that goes with the queue, keeps the invariant
if what the flags say is right afterwards. -/
theorem Invariant.reflag (inv : Invariant law w h) {n : NodeId} {s : Status}
    (hn : h.isAllocated n = true) (hcount : s.count = (h.status n).count)
    (hmoribund : s.contains .moribund = (h.status n).contains .moribund)
    (loose dropping : List NodeId)
    (hattached : ∀ m ∉ loose, h.isAllocated m = true → (h.setStatus n s).isDetached m = false →
      m ∈ h.rings.toList liveList ∨ m ∈ h.rings.toList reachableList)
    (hmarked : w.scarred = false → ∀ m ∈ h.rings.toList reachableList,
      ((h.setStatus n s).status m).contains .mark = h.cycle)
    (hsettled : w.scarred = false → w.guard ≠ some .full →
      ∀ m ∈ h.rings.toList liveList, ((h.setStatus n s).status m).contains .mark = h.cycle)
    (hmark : w.markedList ≠ none → s.contains .mark = (h.status n).contains .mark)
    (htakes : ∀ m, w.Takes m → Juncture.Takes { w with loose } m)
    (hemptied : ∀ m ∉ dropping, h.isAllocated m = true →
      ((h.setStatus n s).isDetached m = true ↔ h.payload? m = none))
    (hdropping : ∀ m ∈ dropping, h.isAllocated m = true ∧ (h.setStatus n s).isDetached m = true)
    (hkept : ∀ m, ¬w.Loses m → (h.setStatus n s).isDetached m = h.isDetached m)
    (hweakKeys : ∀ e ∈ h.roots.weak.toList, ∀ key, e.key = some key →
      ((h.setStatus n s).status key).contains .weakKey = true)
    (hcurrent : w.Intact →
      Current h.stage (h.setStatus n s).isDetached h.roots.weak h.chronicle.making? loose w.kept)
    (hdue : ∀ m, Due w.loose w.dropping w.kept (h.rings.toList liveList) m →
      Due loose dropping w.kept (h.rings.toList liveList) m) :
    Invariant law { w with loose, dropping } (h.setStatus n s) := by
  have hlt := Heap.lt_size_of_isAllocated hn
  have hcounts : ∀ m, ((h.setStatus n s).status m).count = (h.status m).count := by
    intro m
    rw [Heap.status_setStatus hlt]
    split_ifs with hmn
    · rw [hcount, hmn]
    · rfl
  -- Counts, references and the queue stay; what rests on the other flags is among the hypotheses.
  refine inv.restamp (Heap.restamped_setStatus h n s h.moribund) w.flight loose dropping
    (fun m => ?_) inv.grounded inv.nodup_moribund (fun m => ?_) (fun m hm => ?_) (fun m hm => ?_)
    hattached hmarked hsettled (fun hw m _ => ?_) htakes hemptied hdropping hkept hweakKeys hcurrent
    hdue rfl rfl
  · show ((h.setStatus n s).status m).isSaturated = true ∨
      w.Covers (h.debts w m) ((h.setStatus n s).status m).count
    rw [Status.isSaturated, hcounts]
    exact inv.covered m
  · show _ ↔ _ ∧ ((h.setStatus n s).status m).contains .moribund = true
    rw [Heap.status_setStatus hlt]
    split_ifs with hmn
    · rw [hmoribund, hmn]
      exact inv.mem_moribund n
    · exact inv.mem_moribund m
  · show (h.setStatus n s).status m = _
    rw [Heap.status_setStatus hlt, if_neg]
    rintro rfl
    rw [hn] at hm
    cases hm
  · have hold := inv.doomed m hm
    exact ⟨(hcounts m).trans hold.count, hold.unqueued⟩
  · show ((h.setStatus n s).status m).contains .mark = _
    rw [Heap.status_setStatus hlt]
    split_ifs with hmn
    · rw [hmark hw, hmn]
    · rfl

/-- Counting up the status of one node, and taking it off the queue or not, raises its count. -/
theorem raised_setStatus {n : NodeId} {s : Status} {q : List NodeId} (hlt : n < h.nodes.size)
    (hflags : ∀ f, f ≠ .moribund → f ≠ .referenced → s.contains f = (h.status n).contains f)
    (hstuck : (h.status n).isSaturated = true → s = h.status n)
    (hothers : ∀ m, m ≠ n → (m ∈ q ↔ m ∈ h.moribund))
    (hle : s.count ≤ (h.status n).count + 1) :
    Raised [n] h { h.setStatus n s with moribund := q } where
  toRecounted := Heap.recounted_setStatus hlt hflags q
  others := by
    intro m hm
    rw [Heap.status_setStatus_with hlt, if_neg (by simpa using hm)]
  queue := fun m hm => hothers m (by simpa using hm)
  stuck := by
    intro m hm
    rw [Heap.status_setStatus_with hlt]
    split_ifs with hmn
    · subst hmn
      exact hstuck hm
    · rfl
  bounded := by
    intro m
    rw [Heap.status_setStatus_with hlt]
    split_ifs with hmn
    · rw [hmn, List.count_singleton_self]
      exact hle
    · exact Nat.le_add_right _ _

/-- Counting down the status of one node, and queueing it or not, lowers its count. -/
theorem lowered_setStatus {n : NodeId} {s : Status} {q : List NodeId} (hlt : n < h.nodes.size)
    (hflags : ∀ f, f ≠ .moribund → f ≠ .referenced → s.contains f = (h.status n).contains f)
    (hstuck : (h.status n).isSaturated = true → s = h.status n)
    (hsame : s.count = (h.status n).count → s = h.status n)
    (hle : s.count ≤ (h.status n).count) (hqueued : ∀ m ∈ h.moribund, m ∈ q)
    (hothers : ∀ m, m ≠ n → m ∈ q → m ∈ h.moribund)
    (hzero : s.count < (h.status n).count → s.count = 0 → n ∈ q)
    (hself : n ∈ q → n ∈ h.moribund ∨ s.count < (h.status n).count ∧ s.count = 0) :
    Lowered h { h.setStatus n s with moribund := q } where
  toRecounted := Heap.recounted_setStatus hlt hflags q
  stuck := by
    intro m hm
    rw [Heap.status_setStatus_with hlt]
    split_ifs with hmn
    · subst hmn
      rw [hstuck hm]
      exact hm
    · exact hm
  same := by
    intro m hm
    rw [Heap.status_setStatus_with hlt] at hm ⊢
    split_ifs at hm ⊢ with hmn
    · subst hmn
      exact hsame hm
    · rfl
  le := by
    intro m
    rw [Heap.status_setStatus_with hlt]
    split_ifs with hmn
    · rw [hmn]
      exact hle
    · exact Nat.le_refl _
  queued := hqueued
  orphaned := by
    intro m hlow h0
    rw [Heap.status_setStatus_with hlt] at hlow h0
    split_ifs at hlow h0 with hmn
    · subst hmn
      exact hzero hlow h0
    · omega
  fresh := by
    intro m hm
    rw [Heap.status_setStatus_with hlt]
    split_ifs with hmn
    · subst hmn
      exact hself hm
    · exact .inl (hothers m hmn hm)

namespace Collector

open Act

/-- Counting up gives the node its new status and takes it off the queue if that revives it, which
fails only if it is not queued. -/
theorem increment_leads (n : NodeId) : Leads (increment n) h
    (fun _ h' => h' = { h.setStatus n (h.status n).increment.1 with
      moribund := if (h.status n).increment.2 = .revived then h.moribund.erase n else h.moribund })
    fun _ _ => (h.status n).increment.2 = .revived ∧ n ∉ h.moribund := by
  unfold increment
  simp only [leads_bind, leads_view, leads_update]
  split
  · rename_i hrevived
    unfold unqueue
    simp only [leads_bind, leads_view]
    rw [show (h.setStatus n (h.status n).increment.1).moribund = h.moribund from rfl]
    split
    · exact rfl
    · rename_i hnot
      simp only [leads_bind, leads_view, leads_fatal]
      exact ⟨hrevived, fun hmem => hnot (List.contains_iff_mem.2 hmem)⟩
  · exact rfl

/-- Counting down gives the node its new status and queues it if that orphans it. -/
theorem decrement_leads {n : NodeId} {s : Status} {outcome : Decrement}
    (hs : (h.status n).decrement? = some (s, outcome)) :
    Returns (decrement n) h fun _ h' => h' = { h.setStatus n s with
      moribund := if outcome = .orphaned then n :: h.moribund else h.moribund } := by
  unfold decrement
  simp only [Returns, leads_bind, leads_view, hs, leads_update]
  split
  · exact rfl
  · exact rfl

/-- Counting one more reference puts it in flight. -/
theorem increment_spec (inv : Invariant law w h) {n : NodeId} (hn : h.isAllocated n = true)
    (hd : w.doomed ≠ some n) :
    Returns (increment n) h fun _ h' => Invariant law (w.holding [n]) h' ∧ Raised [n] h h' := by
  have hlt := Heap.lt_size_of_isAllocated hn
  have hdebts : ∀ m, m ≠ n → h.debts (w.holding [n]) m = h.debts w m := fun m hm => by
    rw [h.debts_holding, if_neg hm, Nat.add_zero]
  have hmem := inv.mem_moribund n
  rw [hn] at hmem
  have hflags : ∀ f, f ≠ .moribund → f ≠ .referenced →
      (h.status n).increment.1.contains f = (h.status n).contains f := fun f =>
    (h.status n).contains_increment_of_ne
  have hflag := (h.status n).contains_moribund_increment
  have hstuck : (h.status n).isSaturated = true → (h.status n).increment.1 = h.status n :=
    fun hsat => by rw [Status.increment_of_isSaturated hsat]
  have hcount : (h.status n).increment.1.isSaturated = true ∨
      w.Covers (h.debts (w.holding [n]) n) (h.status n).increment.1.count := by
    cases hsat : (h.status n).isSaturated with
    | true =>
      left
      rw [hstuck hsat]
      exact hsat
    | false =>
      right
      rw [Status.count_increment hsat, h.debts_holding, if_pos rfl, Juncture.covers_add_iff]
      exact (inv.covered n).resolve_left (by simp [hsat])
  have hle : (h.status n).increment.1.count ≤ (h.status n).count + 1 := by
    cases hsat : (h.status n).isSaturated with
    | true =>
      rw [hstuck hsat]
      exact Nat.le_add_right _ 1
    | false => exact (Status.count_increment hsat).le
  refine (increment_leads n).mono ?_ ?_
  · rintro _ _ rfl
    -- A queued node is taken off the queue unless its count sticks; any other is not on it.
    split
    · rename_i hrevived
      rw [decide_eq_false (not_not_intro hrevived), Bool.and_false] at hflag
      have hothers : ∀ m, m ≠ n → (m ∈ h.moribund.erase n ↔ m ∈ h.moribund) := fun m hm =>
        List.mem_erase_of_ne hm
      exact ⟨inv.recount_node hn hd hflags hcount hdebts (inv.nodup_moribund.erase n) hothers
          (iff_of_false inv.nodup_moribund.not_mem_erase (by simp [hflag])),
        raised_setStatus hlt hflags hstuck hothers hle⟩
    · rename_i hheld
      rw [decide_eq_true hheld, Bool.and_true] at hflag
      exact ⟨inv.recount_node hn hd hflags hcount hdebts inv.nodup_moribund (fun _ _ => .rfl)
          (by simpa [hflag] using hmem),
        raised_setStatus hlt hflags hstuck (fun _ _ => .rfl) hle⟩
  · rintro _ _ ⟨hrevived, hnot⟩
    exact hnot (hmem.2 ⟨rfl, Status.contains_moribund_of_revived hrevived⟩)

/-- Counting a reference in flight down takes it out of flight. -/
theorem decrement_spec {n : NodeId} (inv : Invariant law (w.holding [n]) h) :
    Returns (decrement n) h fun _ h' => Invariant law w h' ∧ Lowered h h' := by
  have hpos : 0 < h.debts (w.holding [n]) n := by
    rw [h.debts_holding, if_pos rfl]
    omega
  have hn := inv.grounded n hpos
  have hlt := Heap.lt_size_of_isAllocated hn
  have hd : (w.holding [n]).doomed ≠ some n := fun hd => by
    rw [inv.debts_eq_zero_of_doomed hd] at hpos
    omega
  have hdebts : ∀ m, m ≠ n → h.debts w m = h.debts (w.holding [n]) m := fun m hm => by
    rw [h.debts_holding, if_neg hm, Nat.add_zero]
  have hmem := inv.mem_moribund n
  rw [hn] at hmem
  cases hsat : (h.status n).isSaturated with
  | true =>
    -- A count that sticks is left as it is, and so is the queue.
    refine (decrement_leads (Status.decrement?_of_isSaturated hsat)).mono ?_
    rintro _ _ rfl
    exact ⟨inv.recount_node hn hd (fun _ _ _ => rfl) (.inl hsat) hdebts inv.nodup_moribund
        (fun _ _ => .rfl) (by simpa using hmem),
      lowered_setStatus hlt (fun _ _ _ => rfl) (fun _ => rfl) (fun _ => rfl) (Nat.le_refl _)
        (fun _ hm => hm) (fun _ _ hm => hm) (fun hlow => absurd hlow (Nat.lt_irrefl _))
        fun hm => .inl hm⟩
  | false =>
    have hold := (inv.covered n).resolve_left (by simp [hsat])
    have hle := hold.le
    obtain ⟨t, outcome, heq, hcount, hflags, hmoribund, houtcome⟩ :=
      Status.decrement?_eq hsat (by omega)
    have hcount' : w.Covers (h.debts w n) t.count := by
      rw [h.debts_holding, if_pos rfl, ← hcount] at hold
      exact Juncture.covers_add_iff.1 hold
    have hother : ∀ f, f ≠ .moribund → f ≠ .referenced → t.contains f = (h.status n).contains f :=
      fun f hm _ => hflags f hm
    have hstuck : (h.status n).isSaturated = true → t = h.status n := by
      rw [hsat]
      simp
    refine (decrement_leads heq).mono ?_
    rintro _ _ rfl
    -- The node is put on the queue when its last reference goes and it is not there already.
    cases outcome with
    | orphaned =>
      obtain ⟨h0, hclear⟩ := houtcome.1 rfl
      have hnot : n ∉ h.moribund := by simp [hmem, hclear]
      refine ⟨inv.recount_node hn hd hother (.inr hcount') hdebts ?_ ?_ ?_,
        lowered_setStatus hlt hother hstuck (by omega) (by omega) ?_ ?_ ?_ ?_⟩
      · exact List.nodup_cons.2 ⟨hnot, inv.nodup_moribund⟩
      · exact fun m hm =>
          ⟨fun hq => (List.mem_cons.1 hq).resolve_left hm, List.mem_cons_of_mem n⟩
      · simp [hmoribund, h0]
      · exact fun m hm => List.mem_cons_of_mem n hm
      · exact fun m hm hq => (List.mem_cons.1 hq).resolve_left hm
      · exact fun _ _ => List.mem_cons_self
      · exact fun _ => .inr ⟨by omega, h0⟩
    | held =>
      have hkept : t.contains .moribund = (h.status n).contains .moribund := by
        rw [hmoribund]
        by_cases h0 : t.count = 0
        · have hset : (h.status n).contains .moribund = true := by
            by_contra hclear
            have := houtcome.2 ⟨h0, by simpa using hclear⟩
            cases this
          simp [hset]
        · simp [h0]
      refine ⟨inv.recount_node hn hd hother (.inr hcount') hdebts inv.nodup_moribund
        (fun _ _ => .rfl) (by simpa [hkept] using hmem),
        lowered_setStatus hlt hother hstuck (by omega) (by omega) (fun _ hm => hm)
          (fun _ _ hm => hm) ?_ fun hm => .inl hm⟩
      intro _ h0
      refine hmem.2 ⟨rfl, ?_⟩
      rw [← hkept, hmoribund, h0]
      exact Bool.or_true _

/-! ## Several references more or less -/

/-- Counting references to several nodes puts them in flight. -/
theorem forM_increment_spec {ns : List NodeId} (inv : Invariant law w h)
    (hns : ∀ n ∈ ns, h.isAllocated n = true) (hd : ∀ n ∈ ns, w.doomed ≠ some n) :
    Returns (ns.forM increment) h fun _ h' =>
      Invariant law (w.holding ns.reverse) h' ∧ Raised ns h h' := by
  induction ns generalizing w h with
  | nil => exact ⟨inv, .refl [] h⟩
  | cons n ns ih =>
    rw [Returns, leads_forM_cons]
    refine (increment_spec inv (hns n List.mem_cons_self) (hd n List.mem_cons_self)).leads ?_
    rintro _ h₁ ⟨inv₁, hr₁⟩
    have halloc : ∀ m ∈ ns, h₁.isAllocated m = true := fun m hm => by
      rw [hr₁.isAllocated]
      exact hns m (List.mem_cons_of_mem n hm)
    refine (ih inv₁ halloc fun m hm => hd m (List.mem_cons_of_mem n hm)).mono ?_
    rintro _ h₂ ⟨inv₂, hr₂⟩
    refine ⟨?_, hr₁.trans hr₂⟩
    have hflight : (w.holding [n]).holding ns.reverse = w.holding (n :: ns).reverse := by
      unfold Juncture.holding
      simp
    rw [← hflight]
    exact inv₂

/-- Counting several references in flight down takes them out of flight. -/
theorem forM_decrement_spec {ns : List NodeId} (inv : Invariant law (w.holding ns) h) :
    Returns (ns.forM decrement) h fun _ h' => Invariant law w h' ∧ Lowered h h' := by
  induction ns generalizing h with
  | nil => exact ⟨inv, .refl h⟩
  | cons n ns ih =>
    rw [Returns, leads_forM_cons]
    refine (decrement_spec (w := w.holding ns) inv).leads ?_
    rintro _ h₁ ⟨inv₁, hl₁⟩
    exact (ih inv₁).mono fun _ h₂ hpost => ⟨hpost.1, hl₁.trans hpost.2⟩

/-- Releasing several references in flight takes them out of flight. -/
theorem releaseAll_spec {ns : List NodeId} (inv : Invariant law (w.holding ns) h) :
    Returns (releaseAll ns) h fun _ h' => Invariant law w h' ∧ Lowered h h' := by
  induction ns generalizing h with
  | nil => exact ⟨inv, .refl h⟩
  | cons n ns ih =>
    unfold releaseAll
    rw [Returns, leads_ensuring]
    refine (decrement_spec (w := w.holding ns) inv).leads ?_
    rintro _ h₁ ⟨inv₁, hl₁⟩
    exact (ih inv₁).mono fun _ h₂ hpost => ⟨hpost.1, hl₁.trans hpost.2⟩

/-! ## The queue -/

/-- Queueing a node flags and queues it, if it is not queued yet, and changes no count. -/
theorem makeMoribund_spec (inv : Invariant law w h) {n : NodeId} (hn : h.isAllocated n = true)
    (hd : w.doomed ≠ some n) :
    Returns (makeMoribund n) h fun _ h' => Invariant law w h' ∧ Recounted h h' ∧
      (∀ m, (h'.status m).count = (h.status m).count) ∧
      ∀ m, m ∈ h'.moribund ↔ m = n ∨ m ∈ h.moribund := by
  have hlt := Heap.lt_size_of_isAllocated hn
  have hmem := inv.mem_moribund n
  rw [hn] at hmem
  unfold makeMoribund
  simp only [Returns, leads_bind, leads_view]
  cases hq : (h.status n).contains .moribund with
  | true =>
    rw [hq] at hmem
    refine ⟨inv, .refl h, fun _ => rfl, fun m => ⟨.inr, ?_⟩⟩
    rintro (rfl | hm)
    · exact hmem.2 ⟨rfl, rfl⟩
    · exact hm
  | false =>
    rw [hq] at hmem
    have hflags : ∀ f, f ≠ .moribund → f ≠ .referenced →
        ((h.status n).insert .moribund).contains f = (h.status n).contains f := by
      intro f hm _
      simp [Ne.symm hm]
    have hcount : ((h.status n).insert .moribund).isSaturated = true ∨
        w.Covers (h.debts w n) ((h.status n).insert .moribund).count := by
      simpa using inv.covered n
    have hinv := inv.recount_node (q := n :: h.moribund) hn hd hflags hcount (fun _ _ => rfl)
      (List.nodup_cons.2 ⟨by simp [hmem], inv.nodup_moribund⟩)
      (fun m hm => ⟨fun hq => (List.mem_cons.1 hq).resolve_left hm, List.mem_cons_of_mem n⟩)
      (by simp)
    refine ⟨hinv, Heap.recounted_setStatus hlt hflags _, fun m => ?_, fun m => List.mem_cons⟩
    show ((h.setStatus n _).status m).count = _
    rw [Heap.status_setStatus hlt]
    split_ifs with hmn
    · simp [hmn]
    · rfl

end Collector

/-- The heap with the node queued last off the queue, its flag with it. -/
def Heap.popped (h : Heap) (n : NodeId) : Heap :=
  { h with moribund := h.moribund.tail }.setStatus n ((h.status n).erase .moribund)

/-- Taking a node off the queue changes no count. -/
theorem Heap.count_popped {n : NodeId} (hn : n < h.nodes.size) (m : NodeId) :
    ((h.popped n).status m).count = (h.status m).count := by
  refine (congrArg Status.count (Heap.status_setStatus hn m _)).trans ?_
  split_ifs with hm
  · rw [hm, Status.count_erase]
  · rfl

/-- Taking a node off the queue changes nothing but the flag that goes with the queue. -/
theorem Heap.recounted_popped {n : NodeId} (hn : n < h.nodes.size) : Recounted h (h.popped n) :=
  Heap.recounted_setStatus hn (fun f hm _ => by simp [hm]) h.moribund.tail

/-- Taking the node queued last off the queue, and its flag with it, keeps the invariant. -/
theorem Invariant.pop (inv : Invariant law w h) {n : NodeId} {rest : List NodeId}
    (hq : h.moribund = n :: rest) : Invariant law w (h.popped n) := by
  have hrest : h.moribund.tail = rest := by rw [hq, List.tail_cons]
  have hnodup := inv.nodup_moribund
  rw [hq, List.nodup_cons] at hnodup
  have hmem : n ∈ h.moribund := by
    rw [hq]
    exact List.mem_cons_self
  refine inv.recount_node (q := h.moribund.tail) ((inv.mem_moribund n).1 hmem).1 (fun hd => ?_)
    (fun f hm _ => ?_) ?_ (fun _ _ => rfl) ?_ (fun m hm => ?_) ?_
  · exact (inv.doomed n hd).unqueued hmem
  · simp [hm]
  · simpa using inv.covered n
  · rw [hrest]
    exact hnodup.2
  · rw [hrest, hq, List.mem_cons]
    exact ⟨.inr, fun hq => hq.resolve_left hm⟩
  · simp [hrest, hnodup.1]

end HybridHeap
