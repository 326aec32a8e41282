import HybridHeap.Mutator.WeakReferences
import HybridHeap.Proofs.Allocating
import HybridHeap.Workload.Run

/-!
# What operations leave as it was

Of two readings of a heap it is shown which operations leave them as they were, whether they return
or fail. Counting references and dropping payloads leave its *gauge*: the memory, the totals and the
chronicle. Whatever the collector does leaves its *standing*: how it is configured, what has become
of the finalizers that were given, and which of them were run. Destructors may do anything, so all
this is relative to what they leave.
-/

namespace HybridHeap

open Collector

variable {α β γ δ : Type} {h k : Heap} {run : Runner} {fuel : Nat} {n : NodeId}

namespace Act

/-- The operation leaves what `f` reads off a heap as it was, whether it returns or fails. -/
structure Leaves (f : Heap → γ) (x : Act α) : Prop where
  leads : ∀ h, Leads x h (fun _ k => f k = f h) fun _ k => f k = f h

namespace Leaves

variable {f : Heap → γ} {x : Act α} {y : α → Act β} {c : Act Unit}

theorem pure (a : α) : Leaves f (pure a : Act α) := ⟨fun _ => rfl⟩

theorem view (g : Heap → α) : Leaves f (view g) := ⟨fun _ => rfl⟩

theorem update {g : Heap → Heap} (hg : ∀ h, f (g h) = f h) : Leaves f (update g) := ⟨hg⟩

theorem throw (e : Failure) : Leaves f (throw e : Act α) := ⟨fun _ => rfl⟩

theorem fatal (hf : ∀ h text, f (h.log .error text) = f h) (cause : Fatal) :
    Leaves f (fatal cause : Act α) := ⟨fun h => hf h _⟩

/-- What is left as it was twice is left as it was. -/
theorem after {h k : Heap} (hx : Leaves f x) (hk : f k = f h) :
    Leads x k (fun _ l => f l = f h) fun _ l => f l = f h :=
  (hx.leads k).mono (fun _ _ hl => hl.trans hk) fun _ _ hl => hl.trans hk

theorem bind (hx : Leaves f x) (hy : ∀ a, Leaves f (y a)) : Leaves f (x >>= y) where
  leads := fun h => by
    rw [leads_bind]
    exact (hx.leads h).imp fun a _ hk => (hy a).after hk

theorem discard (hx : Leaves f x) : Leaves f (discard x) := ⟨fun h => leads_discard.2 (hx.leads h)⟩

theorem ite {p : Prop} [Decidable p] {z : Act α} (hx : Leaves f x) (hz : Leaves f z) :
    Leaves f (if p then x else z) := by
  split
  · exact hx
  · exact hz

theorem ensuring (hx : Leaves f x) (hc : Leaves f c) : Leaves f (ensuring x c) where
  leads := fun h => by
    rw [leads_ensuring]
    exact (hx.leads h).mono (fun _ _ hk => hc.after hk) fun _ _ hk => hc.after hk

theorem onFailure (hx : Leaves f x) (hc : Leaves f c) : Leaves f (onFailure x c) where
  leads := fun h => by
    rw [leads_onFailure]
    exact (hx.leads h).mono (fun _ _ hk => hk) fun _ _ hk => hc.after hk

theorem forM {y : α → Act PUnit} (hy : ∀ a, Leaves f (y a)) (l : List α) :
    Leaves f (l.forM y) := by
  induction l with
  | nil => exact pure _
  | cons a l ih => exact bind (hy a) fun _ => ih

/-- What leaves a reading leaves everything that is part of it. -/
theorem map (hx : Leaves f x) (g : γ → δ) : Leaves (g ∘ f) x where
  leads := fun h => (hx.leads h).mono (fun _ _ hk => congrArg g hk) fun _ _ hk => congrArg g hk

end Leaves

end Act

open Act

/-- What counting references and dropping payloads leave as it was. -/
structure Gauge where
  config : Settings
  headroom : Nat → Nat
  memory : Memory.Allocator
  stats : Stats
  chronicle : Chronicle
  /-- The finalizers that ran, by the events. -/
  finalized : Nat

/-- What collections leave as it was. -/
structure Standing where
  config : Settings
  headroom : Nat → Nat
  /-- The most bytes that may be outstanding. -/
  limit : Option Nat
  /-- The most bytes that have been outstanding. -/
  peak : Nat
  /-- How many finalizers have been given. -/
  given : Nat
  /-- The finalizers started. -/
  started : List Nat
  /-- The finalizers that went with their weak references. -/
  discarded : List Nat
  /-- The finalizers that ran, by the events. -/
  finalized : Nat

/-- The gauge says where a heap stands. -/
def Gauge.standing (g : Gauge) : Standing :=
  { config := g.config
    headroom := g.headroom
    limit := g.memory.store.limit
    peak := g.chronicle.peak
    given := g.chronicle.given
    started := g.chronicle.started
    discarded := g.chronicle.discarded
    finalized := g.finalized }

namespace Heap

def gauge (h : Heap) : Gauge :=
  ⟨h.config, h.headroom, h.memory, h.stats, h.chronicle, Workload.finalized h⟩

def standing (h : Heap) : Standing := h.gauge.standing

end Heap

theorem Act.Leaves.standing {x : Act α} (hx : Leaves Heap.gauge x) : Leaves Heap.standing x :=
  hx.map Gauge.standing

/-- An operation leaves where the heap stands if it leaves each part of it. -/
theorem Heap.standing_eq (hconfig : k.config = h.config) (hheadroom : k.headroom = h.headroom)
    (hlimit : k.memory.store.limit = h.memory.store.limit)
    (hpeak : k.chronicle.peak = h.chronicle.peak) (hgiven : k.chronicle.given = h.chronicle.given)
    (hstarted : k.chronicle.started = h.chronicle.started)
    (hdiscarded : k.chronicle.discarded = h.chronicle.discarded)
    (hfinalized : Workload.finalized k = Workload.finalized h) : k.standing = h.standing := by
  unfold standing gauge Gauge.standing
  rw [hconfig, hheadroom, hlimit, hpeak, hgiven, hstarted, hdiscarded, hfinalized]

namespace Collector

/-! ## Counting -/

theorem leaves_fatal (cause : Fatal) : Leaves Heap.gauge (fatal cause : Act α) :=
  .fatal (fun _ _ => rfl) cause

/-- A reading of the heap that shows neither counts and flags, nor the queue, nor what is logged. -/
structure Uncounted (f : Heap → γ) : Prop where
  status : ∀ h n s, f (h.setStatus n s) = f h
  queue : ∀ (h : Heap) q, f { h with moribund := q } = f h
  log : ∀ (h : Heap) text, f (h.log .error text) = f h

theorem uncounted_gauge : Uncounted Heap.gauge where
  status := fun _ _ _ => rfl
  queue := fun _ _ => rfl
  log := fun _ _ => rfl

theorem uncounted_standing : Uncounted Heap.standing where
  status := fun _ _ _ => rfl
  queue := fun _ _ => rfl
  log := fun _ _ => rfl

theorem uncounted_roots : Uncounted Heap.roots where
  status := fun _ _ _ => rfl
  queue := fun _ _ => rfl
  log := fun _ _ => rfl

section

variable {f : Heap → γ} (hf : Uncounted f)
include hf

theorem leaves_unqueue (n : NodeId) : Leaves f (unqueue n) :=
  .bind (.view _) fun _ =>
    .ite (.update fun h => hf.queue h _) (.bind (.view _) fun _ => .fatal hf.log _)

theorem leaves_increment (n : NodeId) : Leaves f (increment n) :=
  .bind (.view _) fun _ => .bind (.update fun h => hf.status h _ _) fun _ =>
    .ite (leaves_unqueue hf n) (.pure _)

theorem leaves_decrement (n : NodeId) : Leaves f (decrement n) := by
  refine .bind (.view _) fun counted => ?_
  cases counted with
  | some _ =>
    exact .bind (.update fun h => hf.status h _ _) fun _ =>
      .ite (.update fun h => hf.queue h _) (.pure _)
  | none => exact .bind (.view _) fun _ => .fatal hf.log _

theorem leaves_makeMoribund (n : NodeId) : Leaves f (makeMoribund n) :=
  .bind (.view _) fun _ => .ite (.bind (.update fun h => hf.status h _ _) fun _ =>
    .update fun h => hf.queue h _) (.pure _)

theorem leaves_releaseAll (ns : List NodeId) : Leaves f (releaseAll ns) := by
  induction ns with
  | nil => exact .pure _
  | cons n ns ih => exact .ensuring (leaves_decrement hf n) ih

/-- What is left of expired entries is settled by counting and queueing. -/
theorem leaves_settle (hpending : ∀ (h : Heap) l, f { h with pending := l } = f h)
    (hqueue : ∀ (h : Heap) i, f (h.modifyChronicle (·.queue i h.history h.phase)) = f h)
    (dead : List Expired) : Leaves f (settle dead) := by
  induction dead with
  | nil => exact .pure _
  | cons e dead ih =>
    have hrelease : Leaves f
        (onFailure (e.value.toList.forM decrement) (releaseAll (dead.filterMap Expired.value))) :=
      .onFailure (.forM (leaves_decrement hf) _) (leaves_releaseAll hf _)
    exact .bind hrelease fun _ => .bind (.update fun h => hpending h _) fun _ =>
      .bind (.update fun h => hqueue h _) fun _ => ih

end

theorem leaves_dropPayload (hrun : ∀ program, Leaves Heap.gauge (run program)) (n : NodeId) :
    Leaves Heap.gauge (dropPayload run n) := by
  have hdestructor : Leaves Heap.gauge (runDestructor run n) := by
    refine .bind (.view _) fun hook => ?_
    cases hook with
    | none => exact .pure _
    | some hook =>
      exact .bind (.update fun _ => rfl) fun _ =>
        .bind (.ensuring (hrun hook) (.update fun _ => rfl)) fun _ => .update fun _ => rfl
  have hrelease : Leaves Heap.gauge (releasePayload n) :=
    .bind (.view _) fun _ => .bind (.update fun _ => rfl) fun _ =>
      leaves_releaseAll uncounted_gauge _
  exact .bind (.update fun _ => rfl) fun _ =>
    .bind (.onFailure (.ensuring hdestructor hrelease) (.update fun _ => rfl)) fun _ =>
      .update fun _ => rfl

/-! ## Lite sweeps -/

theorem leaves_expireEntries (p : Nat → WeakEntry → Bool) :
    Leaves Heap.standing (expireEntries p) :=
  .bind (.view _) fun _ => .bind (.update fun _ => rfl) fun _ =>
    leaves_settle uncounted_standing (fun _ _ => rfl) (fun _ _ => rfl) _

theorem leaves_deallocate (n : NodeId) : Leaves Heap.standing (deallocate n) := by
  have hclear : ∀ (h : Heap) (b : Memory.BlockId), ((h.modifyMemory (·.clearMark b)).modifyNode n
      fun node => { node with stage := .freed }).standing = h.standing := fun h b =>
    h.standing_eq rfl rfl (Memory.Allocator.limit_clearMark h.memory b) rfl rfl rfl rfl rfl
  have hlog : ∀ (h : Heap) (text : String), (h.log .error text).standing = h.standing :=
    fun _ _ => rfl
  refine .bind (.view _) fun block => .bind (.view _) fun size => .bind (.update fun _ => rfl)
    fun _ => .bind (.update fun h => hclear h block) fun _ => .bind (.view _) fun fault => ?_
  match fault with
  | none =>
    exact .bind (.update fun h =>
        h.standing_eq rfl rfl (Memory.Allocator.limit_release h.memory _ _) rfl rfl rfl rfl rfl)
      fun _ => .bind (.view _) fun _ => .bind (.forM (fun _ => .update fun h => hlog h _) _)
      fun _ => .update fun _ => rfl
  | some .redzoneDamaged => exact .fatal hlog _
  | some .overflow => exact .throw _
  | some .overdrawn =>
    exact .bind (.update fun h =>
        h.standing_eq rfl rfl (Memory.Allocator.limit_afterFault h.memory _ _ _) rfl rfl rfl rfl
          rfl)
      fun _ => .throw _
  | some .unknownBlock => exact .update fun h => hlog h _

section

variable (hrun : ∀ program, Leaves Heap.gauge (run program))
include hrun

theorem leaves_detach (n : NodeId) (status : Status) : Leaves Heap.gauge (detach run n status) :=
  .ite (.bind (.update fun _ => rfl) fun _ => leaves_dropPayload hrun n) (.pure _)

theorem leaves_dismantle (n : NodeId) : Leaves Heap.standing (dismantle run n) := by
  refine .bind (.view _) fun status => ?_
  have hlast : Leaves Heap.standing (do
      detach run n status
      Act.update fun h => { h with nodeCount := h.nodeCount - 1 }
      deallocate n) :=
    .bind (leaves_detach hrun n status).standing fun _ =>
      .bind (.update fun _ => rfl) fun _ => leaves_deallocate n
  exact .ite (.bind (leaves_expireEntries _) fun _ => hlast) hlast

theorem leaves_destroy (n : NodeId) : Leaves Heap.standing (destroy run n) := by
  have hrest : Leaves Heap.standing (do
      Act.update (·.modifyRings (·.unlink (.node n)))
      dismantle run n) := .bind (.update fun _ => rfl) fun _ => leaves_dismantle hrun n
  rw [destroy_eq]
  exact .bind (.view _) fun _ => .ite (.bind (leaves_unqueue uncounted_standing n) fun _ =>
    .bind (.update fun _ => rfl) fun _ => hrest) hrest

theorem leaves_drain (fuel reclaimed : Nat) : Leaves Heap.standing (drain run fuel reclaimed) := by
  induction fuel generalizing reclaimed with
  | zero => exact .throw _
  | succ fuel ih =>
    refine .bind (.view _) fun next => ?_
    cases next with
    | none => exact .pure _
    | some n =>
      exact .bind (.update fun _ => rfl) fun _ => .bind (.update fun _ => rfl) fun _ =>
        .bind (.view _) fun _ => .ite (.bind (leaves_destroy hrun n) fun _ => ih _) (ih _)

theorem leaves_liteSweep (fuel : Nat) : Leaves Heap.standing (liteSweep run fuel) := by
  refine .bind (.view _) fun _ => .ite (.pure _)
    (.bind (.update fun _ => rfl) fun _ => .ensuring ?_ (.update fun _ => rfl))
  exact .bind (.view _) fun _ => .bind (.forM (leaves_increment uncounted_standing) _) fun _ =>
    .bind (leaves_drain hrun fuel 0) fun _ =>
    .bind (.forM (leaves_decrement uncounted_standing) _) fun _ =>
    .bind (.update fun _ => rfl) fun _ => .bind (.update fun _ => rfl) fun _ =>
    .bind (.update fun _ => rfl) fun _ => .pure _

end

/-! ## Full collections -/

/-- The gauge does not show what is marked. -/
theorem overlooks_gauge : Marking.Overlooks Heap.gauge where
  paint := fun _ _ => rfl
  log := fun _ _ _ => rfl
  flip := fun _ => rfl

theorem leaves_markReachable : Leaves Heap.gauge markReachable where
  leads := fun h => leads_markReachable.2 (overlooks_gauge.run h)

theorem leaves_mark : Leaves Heap.standing mark :=
  .bind leaves_markReachable.standing fun _ => .bind (leaves_expireEntries _) fun _ => .pure _

theorem leaves_retune : Leaves Heap.standing retune := by
  refine .bind (.view _) fun _ => .bind (.view _) fun _ => .ite ?_ ?_
  · refine .bind (.view _) fun _ => .bind (.view _) fun _ => ?_
    split
    · exact .update fun _ => rfl
    · exact .throw _
  · exact .bind (.view _) fun _ =>
      .ite (.bind (.update fun _ => rfl) fun _ => .update fun _ => rfl) (.pure _)

section

variable (hrun : ∀ program, Leaves Heap.gauge (run program))
include hrun

theorem leaves_sweepLive (fuel detached : Nat) :
    Leaves Heap.standing (sweepLive run fuel detached) := by
  induction fuel generalizing detached with
  | zero => exact .throw _
  | succ fuel ih =>
    refine .bind (.view _) fun next => ?_
    cases next with
    | none => exact .pure _
    | some n =>
      exact .bind (.update fun _ => rfl) fun _ => .bind (.view _) fun status =>
        .bind (leaves_detach hrun n status).standing fun _ => .bind (.view _) fun _ =>
        .ite (.bind (leaves_makeMoribund uncounted_standing n) fun _ => ih _) (ih _)

theorem leaves_markSweep (fuel : Nat) : Leaves Heap.standing (markSweep run fuel) := by
  have hsweep : Leaves Heap.standing (sweep run fuel) :=
    .bind (leaves_sweepLive hrun fuel 0) fun _ => .bind (.update fun _ => rfl) fun _ => .pure _
  have hmarkAndSweep : Leaves Heap.standing (inhibiting do
      enterPhase .marking
      let marked ← mark
      enterPhase .sweeping
      let detached ← sweep run fuel
      return (marked, detached)) :=
    .bind (.update fun _ => rfl) fun _ => .ensuring
      (.bind (.update fun _ => rfl) fun _ => .bind leaves_mark fun _ =>
        .bind (.update fun _ => rfl) fun _ => .bind hsweep fun _ => .pure _)
      (.update fun _ => rfl)
  have hrest := Leaves.bind hmarkAndSweep fun found => .bind (leaves_liteSweep hrun fuel)
    fun reclaimed => .bind (y := fun _ => Pure.pure
      ({ marked := found.1, detached := found.2, reclaimed } : CollectionResult))
      (x := enterPhase .idle) (.update fun _ => rfl) fun _ => .pure _
  exact .bind (.view _) fun _ => .ite (.bind (leaves_fatal _).standing fun _ => hrest) hrest

theorem leaves_collect (fuel : Nat) : Leaves Heap.standing (collect run fuel) := by
  refine .bind (.view _) fun _ => .ite (.pure _)
    (.bind (.update fun _ => rfl) fun _ => .ensuring ?_ (.update fun _ => rfl))
  have hend : ∀ result, Leaves Heap.standing (do
      Act.update (·.modifyChronicle (·.collect result))
      return result) := fun result => .bind (.update fun _ => rfl) fun _ => .pure _
  exact .bind (.view _) fun _ => .bind (leaves_markSweep hrun fuel) fun _ =>
    .bind leaves_retune fun _ => .bind (.update fun _ => rfl) fun _ => .bind (.view _) fun _ =>
    .ite (.bind (.update fun _ => rfl) fun _ => hend _) (hend _)

end

end Collector

end HybridHeap
