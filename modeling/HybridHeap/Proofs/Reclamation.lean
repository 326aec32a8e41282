import HybridHeap.Proofs.LiteSweep
import HybridHeap.Proofs.Safety

/-!
# Lite sweeps reclaim the garbage

A lite sweep of a heap that a mutator comes to reclaims exactly the garbage, in any order of the
queue, and returns how much that was. Every other node stays as it was but for its count, which goes
down by the holders that went, unless it sticks.
-/

namespace HybridHeap

open Collector Act

variable {law : Law} {w : Juncture} {h h' : Heap} {n : NodeId} {q : List NodeId}

/-! ## The order of the queue -/

/-- The order of the queue is of no concern to the invariant. -/
theorem Invariant.requeue (inv : Invariant law w h) (hq : q.Perm h.moribund) :
    Invariant law w { h with moribund := q } :=
  { inv with
    nodup_moribund := hq.nodup_iff.2 inv.nodup_moribund
    mem_moribund := fun n => hq.mem_iff.trans (inv.mem_moribund n)
    doomed := fun n hn =>
      have hold := inv.doomed n hn
      ⟨hold.allocated, hold.count, fun hmem => hold.unqueued (hq.mem_iff.1 hmem), hold.unlisted,
        hold.unkeyed⟩ }

/-- The order of the queue is of no concern to what is garbage. -/
theorem Heap.garbage_requeue (hq : q.Perm h.moribund) :
    ({ h with moribund := q } : Heap).garbage = h.garbage :=
  garbage_congr rfl (fun _ _ => rfl) (fun _ _ => hq.mem_iff) fun _ _ => rfl

/-- The order of the queue is of no concern to what a sweep leaves. -/
theorem Cleared.requeue (hc : Cleared { h with moribund := q } h') (hq : q.Perm h.moribund) :
    Cleared h h' := by
  have hgarbage := Heap.garbage_requeue hq
  have hremains := hc.toRemains
  have hfreed := hc.freed
  have hstage := hc.stage
  have hdetached := hc.detached
  have hcount := hc.count
  rw [hgarbage] at hremains hfreed hstage hdetached hcount
  exact { hremains with freed := hfreed, stage := hstage, detached := hdetached, count := hcount,
                        stuck := hc.stuck }

namespace Mutator

/-- A lite sweep that is not held off ends, reclaims the garbage and nothing else, and returns the
number of nodes reclaimed, whatever the order of the queue. What it pops while the count is not zero
is only taken off the queue. -/
theorem liteSweep_reclaims_garbage {terms : Terms} {bound depth fuel : Nat}
    (hv : Visited .tidying h) (hi : h.isInhibited = false) (hquiet : h.Quiet)
    (hfuel : 2 * h.nodes.size < fuel) :
    (∀ n ∈ h.garbage, h.isAllocated n = true) ∧
    (∀ q, q.Perm h.moribund → ∃ h',
      liteSweep (runNested terms bound (depth + 1)) fuel { h with moribund := q } =
        .ok h.garbage.ncard h' ∧ Cleared h h') ∧
    ∀ (run : Runner) (k : Heap) (n : NodeId) (rest : List NodeId) (turns reclaimed : Nat),
      k.moribund = n :: rest → 0 < (k.status n).count →
      drain run (turns + 1) reclaimed k = drain run turns reclaimed (k.popped n) := by
  obtain ⟨w, hready, inv⟩ := hv.invariant
  refine ⟨fun n hn => Heap.isAllocated_of_mem_garbage inv hn, fun q hq => ?_,
    fun run k n rest turns reclaimed hqueue hcount => ?_⟩
  · have hsweep := liteSweep_quiet (h := { h with moribund := q })
      (runNested_idle terms bound depth) hquiet rfl hready (inv.requeue hq) hi hfuel
    obtain ⟨reclaimed, h', hrun, hnumber, -, hcleared⟩ := returns_iff.1 hsweep
    rw [Heap.garbage_requeue hq] at hnumber
    exact ⟨h', hnumber ▸ hrun, hcleared.requeue hq⟩
  · have hlt := Heap.lt_size_of_count (Nat.ne_of_gt hcount)
    rw [drain_cons turns reclaimed hlt hqueue, if_neg (Nat.ne_of_gt hcount)]

/-- A queued node takes with it the node that only its payload holds. -/
theorem liteSweep_reclaims_garbage_chain :
    ∃ h, Visited .tidying h ∧ h.moribund = [1] ∧
      ∃ h', liteSweep (runNested .free 0 1) 8 h = .ok h.garbage.ncard h' ∧ Cleared h h' := by
  have hplay : ((play .tidying [.allocate .bare .link [] none, .allocate (.root "a") .link [0] none,
      .drop "a"]).any fun h => h.isInhibited = false ∧ h.Quiet ∧ 2 * h.nodes.size < 8 ∧
        h.moribund = [1]) = true := by
    decide +kernel
  obtain ⟨h, hh, hfacts⟩ := (Option.any_eq_true _ _).1 hplay
  obtain ⟨hi, hquiet, hfuel, hqueue⟩ := of_decide_eq_true hfacts
  have hv : Visited .tidying h := ⟨h, reached_of_play hh, .inl rfl⟩
  obtain ⟨-, hsweep, -⟩ := liteSweep_reclaims_garbage hv hi hquiet hfuel
  exact ⟨h, hv, hqueue, hsweep h.moribund (.refl _)⟩

/-! ## Counts that stick -/

/-- Edges that are lost until a count sticks change nothing else that a sweep looks at. -/
theorem leak_stuck (count : Nat) (hn : h.isAllocated n = true) (hdying : h.dying = [])
    (hq : (h.status n).contains .moribund = false) (hpos : count ≠ 0)
    (hlimit : count ≤ leakLimit) (hcount : (h.status n).count + count = Status.countMax) :
    Returns (leak n count) h fun _ h' => Restamped { h with lost := h'.lost } h' ∧
      h'.moribund = h.moribund ∧ (h'.status n).count = Status.countMax ∧
      ∀ m, m ≠ n → h'.status m = h.status m := by
  have hlt := Heap.lt_size_of_isAllocated hn
  have hsat : (h.status n).isSaturated = false := by
    rw [Status.isSaturated_eq_false_iff]
    omega
  have houtcome : (h.status n).increment = ((h.status n).increment.1, .held) := by
    refine Prod.ext rfl ?_
    rw [Status.increment_snd, hsat, hq]
    rfl
  have hclear : (h.status n).increment.1.contains .moribund = false := by
    rw [Status.contains_increment hsat, hq]
    rfl
  -- Counted up to the largest value, the word stays there.
  obtain ⟨hmore, -⟩ := Status.repeat_increment (h.status n).increment.1 (count - 1) (.inr hclear)
  have hstuck : (Nat.repeat (fun s => s.increment.1) (count - 1) (h.status n).increment.1).count =
      Status.countMax := by
    refine hmore.elim (Status.isSaturated_iff _).1 fun hsum => ?_
    rw [hsum, Status.count_increment hsat]
    omega
  have hset : ∀ s : Status, ∀ m, (h.setStatus n s).status m = if m = n then s else h.status m :=
    fun s m => Heap.status_setStatus hlt m s
  have hreferable : (h.isAllocated n && !h.dying.contains n) = true := by
    simp [hn, hdying]
  unfold leak requireReferable require increment
  rw [Returns]
  simp only [leads_bind, leads_view, hreferable, Bool.not_true, Bool.false_eq_true, if_false,
    leads_pure, Nat.not_lt.2 hlimit, ne_eq, hpos, not_false_eq_true, if_true]
  rw [houtcome]
  simp only [leads_update, reduceCtorEq, if_false, leads_pure, lose]
  have hr := (h.restamped_setStatus n (h.status n).increment.1 h.moribund).trans
    ((h.setStatus n (h.status n).increment.1).restamped_setStatus n
      (Nat.repeat (fun s => s.increment.1) (count - 1)
        ((h.setStatus n (h.status n).increment.1).status n)) h.moribund)
  have hstatus : ∀ m, ((h.setStatus n (h.status n).increment.1).setStatus n
      (Nat.repeat (fun s => s.increment.1) (count - 1)
        ((h.setStatus n (h.status n).increment.1).status n))).status m =
      if m = n then Nat.repeat (fun s => s.increment.1) (count - 1) (h.status n).increment.1
        else h.status m := fun m => by
    rw [Heap.status_setStatus (by rwa [Heap.size_nodes_setStatus]), hset, hset, if_pos rfl]
    split_ifs <;> rfl
  refine ⟨⟨rfl, hr.shells⟩, rfl, ?_, fun m hm => ?_⟩
  · exact (congrArg Status.count ((hstatus n).trans (if_pos rfl))).trans hstuck
  · exact (hstatus m).trans (if_neg hm)

/-- A mutator can make a count stick by losing edges. -/
theorem Reached.leak_stuck {law : Law} (hreached : Reached law h) (count : Nat)
    (hn : h.isAllocated n = true) (hdying : h.dying = [])
    (hq : (h.status n).contains .moribund = false) (hpos : count ≠ 0) (hlimit : count ≤ leakLimit)
    (hcount : (h.status n).count + count = Status.countMax) :
    ∃ k, Reached law k ∧ Restamped { h with lost := k.lost } k ∧ k.moribund = h.moribund ∧
      (k.status n).count = Status.countMax ∧ ∀ m, m ≠ n → k.status m = h.status m := by
  obtain ⟨number, k, hleak, hr, hqueue, hstuck, hothers⟩ := returns_iff.1
    (Mutator.leak_stuck count (h := { h with events := [] }) hn hdying hq hpos hlimit hcount)
  have hstep : perform (runNested (.under law) 0 0) 0 (.leak n count) { h with events := [] } =
      .ok (.number number) k := by
    unfold perform
    simp only [Functor.map, EStateM.map, hleak]
  refine ⟨{ k with events := h.events }, hreached.step (answer_of_ok rfl hstep), ⟨?_, hr.shells⟩,
    hqueue, hstuck, hothers⟩
  rw [hr.eq]

/-- A node whose count sticks keeps it when a sweep takes one of its holders. -/
theorem count_sticks_when_holder_goes :
    ∃ h n, Visited .tidying h ∧ h.isInhibited = false ∧ h.Quiet ∧ n ∉ h.garbage ∧ n ∉ h.pinned ∧
      0 < h.holdersIn h.garbage n ∧
      ∃ h', liteSweep (runNested .free 0 1) 8 h = .ok h.garbage.ncard h' ∧
        (h'.status n).count = (h.status n).count := by
  have hplay : ((play .tidying [.allocate .bare .link [] none, .allocate (.root "m") .link [0] none,
      .drop "m"]).any fun h => h.isInhibited = false ∧ h.Quiet ∧ h.nodes.size = 2 ∧
        h.moribund = [1] ∧ h.pinned = [] ∧ h.dying = [] ∧ h.isAllocated 0 = true ∧
        (h.status 0).contains .moribund = false ∧ (h.status 0).count = 1 ∧
        (h.status 1).count = 0 ∧ h.edges 1 = [0]) = true := by
    decide +kernel
  obtain ⟨h, hh, hfacts⟩ := (Option.any_eq_true _ _).1 hplay
  obtain ⟨hi, hquiet, hsize, hqueue, hpinned, hdying, hn, hflag, hcount, hzero, hedges⟩ :=
    of_decide_eq_true hfacts
  obtain ⟨k, hreached, hr, hqueue', hstuck, hothers⟩ := (reached_of_play hh).leak_stuck 16777214 hn
    hdying hflag (by decide) (by decide) (by rw [hcount]; decide)
  have inv := hreached.invariant
  have hpinned' : k.pinned = [] := hr.pinned.trans hpinned
  have hsize' : k.nodes.size = 2 := hr.size_nodes.trans hsize
  have hquiet' : k.Quiet := (Remains.of_restamped hr).quiet hquiet
  have hi' : k.isInhibited = false := by
    unfold Heap.isInhibited
    rw [hr.eq]
    exact hi
  have hzero' : (k.status 1).count = 0 := by
    rw [hothers 1 (by decide)]
    exact hzero
  -- A count that sticks keeps a node from being garbage whoever goes.
  have hkept : 0 ∉ k.garbage := fun hmem => by
    have hunsaturated : (k.status 0).isSaturated = false :=
      Heap.garbage_subset (S := {m | (k.status m).isSaturated = false})
        (fun m hm => hm.unsaturated) hmem
    rw [Status.isSaturated_eq_false_iff] at hunsaturated
    exact hunsaturated hstuck
  have hgone : 1 ∈ k.garbage := by
    have hunsaturated := Status.not_isSaturated_of_count_eq_zero hzero'
    have hle := inv.holdersIn_le_count hunsaturated ∅
    refine Heap.mem_garbage inv (Set.empty_subset _) ⟨?_, hunsaturated, by omega, .inl ?_⟩
    · rw [hpinned']
      exact List.not_mem_nil
    · rw [hqueue']
      exact hqueue ▸ List.mem_cons_self
  have hheld : 0 < k.holdersIn k.garbage 0 := by
    refine Nat.lt_of_lt_of_le ?_ (k.count_edges_le_holdersIn hgone 0)
    rw [k.edges_eq, hr.payload?]
    rw [h.edges_eq] at hedges
    exact (congrArg (List.count 0) hedges).symm ▸ Nat.one_pos
  obtain ⟨reclaimed, h', hrun, hnumber, -, hcleared⟩ := returns_iff.1
    (liteSweep_quiet (runNested_idle .free 0 0) hquiet' rfl Juncture.ready_rest inv hi'
      (show 2 * k.nodes.size < 8 by omega))
  refine ⟨k, 0, ⟨k, hreached, .inl rfl⟩, hi', hquiet', hkept, ?_, hheld, h', hnumber ▸ hrun, ?_⟩
  · rw [hpinned']
    exact List.not_mem_nil
  · rw [hstuck]
    exact hcleared.stuck 0 (by omega)

end Mutator

end HybridHeap
