import HybridHeap.Proofs.Accounts
import HybridHeap.Proofs.Building
import HybridHeap.Proofs.LiveList
import Mathlib.Tactic.Linarith
import Mathlib.Tactic.Ring

/-!
# Rounds of a workload

Between its rounds a workload has nothing in hand, and the full collection that ends each of them
leaves the heap vacant: no node has storage, no weak reference is left, and every finalizer that was
given has run. A round that fails has dropped whatever it had built on, unless it was the trigger of
that collection that did not fit in a word.
-/

namespace HybridHeap

open Collector Act Mutator

namespace Workload

variable {s : Site} {t : Tally} {w : Workload} {h k l : Heap} {D : Set NodeId}
  {fuel room n : Nat} {e : Failure}

/-! ## Collections between two steps of a builder -/

/-- A heap that has been purged is tended as it was. -/
theorem Tends.purge (ht : Tends s h) (hk : Purged .tidying s.juncture h k) : Tends s k := by
  obtain ⟨D, hp⟩ := hk.purges
  exact ht.stand (hp.tended ht.toTended) hk.inv (ht.roots.purge hp) rfl hk.standing hp.size.ge

/-- No more finalizers wait than nodes have been allocated. -/
theorem Tends.pending_le (ht : Tends s h) : h.pending.length ≤ h.nodes.size := by
  have hl := ht.inv.ledger s.whole.intact
  have hplaces := hl.places.length_eq
  have hgiven : h.chronicle.given = s.tally.given := congrArg Tally.given ht.tally
  have hle := ht.given_le
  rw [hl.queue] at hplaces
  simp only [List.length_range, List.length_append, List.length_reverse, List.length_map]
    at hplaces
  omega

/-- Running a finalizer is nothing but taking it off the queue. -/
theorem Tends.takeUp (ht : Tends s h) {f : Finalizer} (hf : h.pending.head? = some f) :
    Tends s ((h.takeUp f).emit (.finalizer f.name [])) :=
  { ht with
    inv := { ht.inv.takeUp hf with }
    ran := by
      have hran : finalized ((h.takeUp f).emit (.finalizer f.name [])) = finalized h + 1 :=
        List.countP_cons_of_pos rfl
      rw [hran, ht.ran]
      rfl }

/-- The finalizers that wait are run. -/
theorem runFinalizers_tends (ran : Nat) (ht : Tends s h) (hfuel : h.pending.length < fuel) :
    Returns (runFinalizers runner fuel ran) h fun _ k =>
      Tends s k ∧ k.pending = [] ∧
        ∃ pending chronicle events, k = { h with pending, chronicle, events } := by
  induction fuel generalizing h ran with
  | zero => exact absurd hfuel (Nat.not_lt_zero _)
  | succ fuel ih =>
    unfold runFinalizers
    simp only [Returns, leads_bind, leads_view]
    cases hf : h.pending.head? with
    | none => exact ⟨ht, List.head?_eq_none_iff.1 hf, h.pending, h.chronicle, h.events, rfl⟩
    | some f =>
      simp only [leads_bind, leads_update]
      have hlength : ((h.takeUp f).emit (.finalizer f.name [])).pending.length < fuel := by
        show h.pending.tail.length < fuel
        rw [List.length_tail]
        have hne : 0 < h.pending.length := List.length_pos_of_mem (List.mem_of_mem_head? hf)
        omega
      refine (ih (ran + 1) (ht.takeUp hf) hlength).leads ?_
      rintro _ k ⟨htk, hnil, pending, chronicle, events, rfl⟩
      exact ⟨htk, hnil, pending, chronicle, events, rfl⟩

/-- What is purged stays so while finalizers run. -/
theorem runPendingFinalizers_tends (ht : Tends s h) (hp : Purges D l h)
    (hfuel : h.nodes.size < fuel) :
    Returns (runPendingFinalizers runner fuel) h fun _ k =>
      Tends s k ∧ Purges D l k ∧ k.pending = [] := by
  refine (runFinalizers_tends 0 ht (ht.pending_le.trans_lt hfuel)).mono ?_
  rintro _ k ⟨htk, hnil, pending, chronicle, events, rfl⟩
  exact ⟨htk, { hp with }, hnil⟩

/-- A full collection with the finalizers after it purges everything that is out of reach. -/
theorem forceFullCollection_tends (ht : Tends s h) (hanchored : s.Anchored)
    (hfuel : 2 * h.nodes.size < fuel) :
    Leads (forceFullCollection runner fuel) h
      (fun _ k => Tends s k ∧ Purges h.unreached h k ∧ k.pending = [])
      fun e k => e = .overflow ∧ k.Strained ∧ Tends s k ∧ Purges h.unreached h k := by
  have hin : s.juncture.InReach h :=
    ⟨fun n hn => ht.reach (hanchored n hn), fun m hm => by cases hm⟩
  unfold forceFullCollection
  rw [leads_bind]
  refine (collect_purges idle_runner leaves_runner rfl ht.toTended s.steady rfl ht.inv hfuel rfl
    hin).mono ?_ fun e k he => ⟨he.1, he.2.1, ht.purge he.2.2.1, he.2.2.2⟩
  rintro result k ⟨hk, hp⟩
  have hsize := hp.size
  simp only [leads_bind, leads_discard, leads_pure]
  exact (runPendingFinalizers_tends (ht.purge hk) hp (by omega)).leads fun _ _ hl => hl

/-- So does a lite sweep, though not everything. -/
theorem runLiteSweep_tends (ht : Tends s h) (hfuel : 2 * h.nodes.size < fuel) :
    Returns (runLiteSweep runner fuel) h fun _ k =>
      Tends s k ∧ (∃ D, Purges D h k) ∧ k.pending = [] := by
  unfold runLiteSweep
  simp only [Returns, leads_bind, leads_discard, leads_pure]
  refine (liteSweep_purges idle_runner leaves_runner rfl ht.toTended s.steady rfl ht.inv
    hfuel).leads ?_
  rintro _ k hk
  obtain ⟨D, hp⟩ := hk.purges
  have hsize := hp.size
  refine (runPendingFinalizers_tends (ht.purge hk) hp (by omega)).leads ?_
  rintro _ l ⟨htl, hpl, hnil⟩
  exact ⟨htl, ⟨D, hpl⟩, hnil⟩

/-! ## Between rounds -/

/-- Nothing is in hand. -/
def Site.bare (t : Tally) : Site := ⟨[], [], [], #[], #[], t⟩

theorem Site.anchored_of_flight (hs : s.flight = []) : s.Anchored := fun n hn => by
  rw [hs] at hn
  cases hn

/-- Without roots nothing is reachable. -/
theorem Tends.not_reach (ht : Tends s h) (hs : s.rootNodes = []) : ¬h.Reach n := by
  intro hn
  induction hn with
  | root hm =>
    have hmem := ht.mem_rootNodes.1 hm
    rw [hs] at hmem
    cases hmem
  | edge _ _ _ ih => exact ih
  | weak _ _ _ _ ih => exact ih

/-- Nothing is in hand, and nothing that was built is left. -/
structure Vacant (t : Tally) (h : Heap) : Prop where
  tends : Tends (.bare t) h
  freed : ∀ n, h.isAllocated n = false

theorem Vacant.not_isAllocated (hv : Vacant t h) (n : NodeId) : ¬h.isAllocated n = true := by
  rw [hv.freed]
  exact Bool.false_ne_true

theorem Vacant.nodeCount (hv : Vacant t h) : h.nodeCount = 0 := by
  rw [hv.tends.inv.nodeCount, h.allocatedCount_eq_length, List.length_eq_zero_iff]
  exact List.eq_nil_iff_forall_not_mem.2 fun n hn =>
    hv.not_isAllocated n (Heap.mem_allocated.1 hn)

/-- A full collection that finds no roots leaves nothing. -/
theorem Tends.freed_of_purges (ht : Tends s h) (hs : s.rootNodes = []) (hp : Purges h.unreached h k)
    (n : NodeId) : k.isAllocated n = false := by
  rw [Bool.eq_false_iff]
  intro hn
  have hmem := hp.not_mem_of_isAllocated hn
  exact hmem ⟨hp.isAllocated hmem ▸ hn, ht.not_reach hs⟩

/-- Where no node has storage every weak entry has expired. -/
theorem Tends.hollow_of_freed (ht : Tends s h) (hfreed : ∀ n, h.isAllocated n = false) {slot : Nat}
    (hslot : slot ∈ s.referring) : h.roots.weak.get? slot = some hollow := by
  have htoken : slot ∈ h.weakTokens s.juncture := List.mem_append_left _ hslot
  obtain ⟨entry, hentry⟩ := Option.isSome_iff_exists.1 (ht.inv.weakTokens slot htoken)
  have hmem : entry ∈ h.roots.weak.toList := SlotTable.mem_toList.2 ⟨slot, hentry⟩
  have hkey : entry.key = none := by
    rw [Option.eq_none_iff_forall_ne_some]
    intro key hkey
    have halloc := (ht.inv.weakKeys entry hmem key hkey).1
    rw [hfreed] at halloc
    cases halloc
  rw [hentry, ht.inv.hollow entry hmem hkey]

/-- Why a workload stops before its end. Either the trigger does not fit in a word, or the limit on
memory has been reached; then nothing is in hand any more. -/
inductive Stopped (t : Tally) (room : Nat) : Failure → Heap → Prop where
  | strained {k : Heap} (hk : k.Strained) : Stopped t room .overflow k
  | starved {k : Heap} {size given : Nat} {discarded : List Nat}
      (hlimit : k.memory.store.limit ≠ none)
      (ht : Tends (.bare { t with given, discarded }) k) (hroom : k.nodes.size ≤ room) :
      Stopped t room (.outOfMemory size) k

theorem Foiled.stopped (hf : Foiled (.bare t) room e k) : Stopped t room e k := by
  obtain ⟨given, discarded, ht⟩ := hf.tends
  rcases hf.cause with ⟨rfl, hk⟩ | ⟨⟨size, rfl⟩, hlimit⟩
  · exact .strained hk
  · exact .starved hlimit ht hf.size_le

/-- After a failure an explicit root is dropped. -/
theorem Foiled.dropRoot {m : NodeId} {slot : Nat}
    (hf : Foiled { s with rooted := (m, slot) :: s.rooted } room e k) :
    Returns (dropRoot m slot) k fun _ l => Foiled s room e l := by
  refine hf.unwind fun given discarded htk => ?_
  refine (dropRoot_tends (s := s.settled given discarded) htk).mono ?_
  rintro _ l ⟨htl, hl⟩
  exact ⟨⟨given, discarded, htl⟩, _, _, hl.toTouches⟩

/-- Building all that is built besides the tree. -/
theorem buildRest_tends (ht : Tends s h) (hs : s.referring = []) (hanchored : s.Anchored)
    (hstack : s.HasRoom 1) (hfuel : 2 * room < fuel)
    (hroom : h.nodes.size + (w.chains * w.length + 2 * w.cycles + 2 * w.weak) ≤ room) :
    Leads (do
        buildLists fuel w.length w.chains
        buildCycles fuel w.cycles 0
        buildWeak fuel [] w.weak 0) h
      (fun slots k => Tends { s with
          referring := slots.reverse
          tally := { s.tally with given := s.tally.given + w.weak } } k ∧
        Grows (w.chains * w.length + 2 * w.cycles + 2 * w.weak) h k) (Foiled s room) := by
  have hbare : { s with referring := [] } = s := by rw [← hs]
  have hslots : s.referring = ([] : List Nat).reverse := hs
  rw [leads_bind]
  refine (buildLists_tends w.chains ht hanchored hstack hfuel (by omega)).imp ?_
  rintro _ k₁ ⟨ht₁, hg₁⟩
  have hsize₁ := hg₁.size
  rw [leads_bind]
  refine (buildCycles_tends w.cycles ht₁ hanchored hstack hfuel (by omega)).imp ?_
  rintro _ k₂ ⟨ht₂, hg₂⟩
  have hsize₂ := hg₂.size
  refine (buildWeak_tends w.weak ht₂ hslots hanchored hstack hfuel (by omega)).mono ?_
    fun e k hf => hbare ▸ hf
  rintro slots k₃ ⟨ht₃, hg₃⟩
  exact ⟨ht₃, (hg₁.trans hg₂).trans hg₃⟩

/-- A round, or several of them, have come to their end: nothing is left, and `c` nodes have been
allocated. -/
structure Rounded (t : Tally) (c : Nat) (h k : Heap) : Prop extends Vacant t k where
  size : k.nodes.size = h.nodes.size + c
  born : (∀ n < h.nodes.size, h.stage n ≠ .unborn) → ∀ n < k.nodes.size, k.stage n ≠ .unborn

/-- Building everything and collecting it again. -/
theorem build_tends (ht : Tends (.bare t) h) (hdepth : w.depth < 63) (hfuel : 2 * room < fuel)
    (hroom : h.nodes.size + w.nodesPerRound ≤ room) :
    Leads (w.build fuel) h
      (fun sum k => sum = tagSum w.depth 1 ∧
        Rounded { t with given := t.given + w.weak } w.nodesPerRound h k) (Stopped t room) := by
  have hanchored : (Site.bare t).Anchored := Site.anchored_of_flight rfl
  have hroom' : Site.HasRoom (.bare t) (2 * w.depth) := by
    show 0 + 0 + 2 * w.depth + 2 < 16777215
    omega
  have hfit : (1 + 1) * 2 ^ w.depth ≤ 2 ^ 64 := by
    have hpow : 2 ^ w.depth ≤ 2 ^ 63 := Nat.pow_le_pow_right (by decide) hdepth.le
    omega
  unfold nodesPerRound at hroom ⊢
  unfold build
  rw [leads_bind]
  refine (tree_tends w.depth ht hanchored hroom' hfit hfuel (by omega)).mono ?_
    fun _ _ hf => hf.stopped
  rintro top k₁ ⟨ht₁, hg₁, htree₁, hcount₁⟩
  have htop : k₁.isAllocated top = true := ht₁.isAllocated_of_holding List.mem_cons_self
  rw [leads_bind]
  refine (newRoot_tends ht₁ htop hcount₁).leads ?_
  rintro root k₂ ⟨ht₂, hk₂⟩
  rw [leads_bind]
  let s₁ : Site := { Site.bare t with rooted := [(top, root)] }
  refine (decrement_tends (s := s₁) ht₂).leads ?_
  rintro _ k₃ ⟨ht₃, hk₃, -⟩
  have hg₃ : Grows (treeNodes w.depth) h k₃ :=
    hg₁.edit ht ht₃ (hk₂.trans hk₃) (fun _ hm => by simp at hm) fun _ hm => by cases hm
  have htree₃ : IsTree k₃ w.depth 1 top := (htree₁.edit hk₂).edit hk₃
  have hroot : top ∈ s₁.rootNodes := by simp [Site.rootNodes, s₁]
  have hsize₃ := hg₃.size
  -- The root holds the tree while the rest is built.
  rw [leads_bind]
  refine Leads.mono (leads_onFailure_foiled (s := Site.bare t)
    (buildRest_tends ht₃ rfl (Site.anchored_of_flight rfl) ?_ hfuel (by omega))
    fun _ _ hf => hf.dropRoot) ?_ fun _ _ hf => hf.stopped
  · show 0 + 0 + 1 + 2 < 16777215
    decide
  rintro slots k₄ ⟨ht₄, hg₄⟩
  have htree₄ : IsTree k₄ w.depth 1 top := htree₃.keep (ht₃.reach hroot) hg₄.toKeeps
  rw [leads_bind, leads_view, leads_bind]
  let s₅ : Site := { Site.bare { t with given := t.given + w.weak } with
    referring := slots.reverse }
  refine (dropRoot_tends (s := s₅) ht₄).leads ?_
  rintro _ k₅ ⟨ht₅, hk₅⟩
  have hg := hg₃.trans hg₄
  have hsize₄ := hg.size
  have hsize₅ := hk₅.size
  rw [leads_bind, leads_discard]
  refine (forceFullCollection_tends ht₅ (Site.anchored_of_flight rfl) (by omega)).mono ?_ ?_
  · rintro result k₆ ⟨ht₆, hp₆, -⟩
    have hfreed := ht₅.freed_of_purges rfl hp₆
    rw [leads_bind]
    refine (forM_dropWeak_tends slots (ht₆.refer (List.reverse_perm slots).symm)).leads ?_
    rintro _ k₇ ⟨discarded, ht₇, hk₇, hsame⟩
    have hhollow : ∀ slot ∈ slots, k₆.roots.weak.get? slot = some hollow := fun slot hslot =>
      ht₆.hollow_of_freed hfreed (List.mem_reverse.2 hslot)
    obtain rfl := hsame hhollow
    have hsize : k₇.nodes.size = k₅.nodes.size := hk₇.size.trans hp₆.size
    refine ⟨htree₄.treeSum_eq, ⟨ht₇, fun n => ?_⟩, by omega, fun hborn n hn => ?_⟩
    · rw [hk₇.isAllocated]
      exact hfreed n
    · have hborn₅ : k₅.stage n ≠ .unborn := by
        rw [hk₅.stage]
        exact hg.born hborn n (by omega)
      rw [hk₇.stage]
      by_cases hmem : n ∈ k₅.unreached
      · rw [hp₆.freed n hmem]
        exact Stage.noConfusion
      · rw [hp₆.stage n hmem]
        exact hborn₅
  · rintro e k ⟨rfl, hstrained, -, -⟩
    exact .strained hstrained

/-! ## Rounds -/

/-- Unwinding the stacks to the bottom always succeeds. -/
theorem restoreTo_bottom (h : Heap) :
    Returns (restoreTo ⟨0, 0, 0⟩) h fun _ k => k = h.modifyRoots (unwind ⟨0, 0, 0⟩) := by
  unfold restoreTo
  simp only [Returns, leads_bind, leads_view]
  rw [if_neg (by simp [isShallower])]
  rfl

/-- Where nothing is in hand that changes nothing. -/
theorem Tends.unwind (ht : Tends (.bare t) h) :
    Tends (.bare t) (h.modifyRoots (unwind ⟨0, 0, 0⟩)) := by
  have hroots : Mutator.unwind ⟨0, 0, 0⟩ h.roots =
      { h.roots with stack := #[], nodeStack := #[] } := by
    have hstack : h.roots.stack.take 0 = #[] := by simp
    have hnodeStack : h.roots.nodeStack.take 0 = #[] := by simp
    have hprotect : h.roots.protect.take 0 = h.roots.protect := by
      rw [ht.roots.protect]
      rfl
    unfold Mutator.unwind
    rw [hstack, hnodeStack, hprotect]
  exact (ht.restack (s := .bare t) hroots (fun _ hm => .inl hm) (fun _ hm => .inl hm)
    (by decide)).1

theorem Stopped.unwind (hk : Stopped t room e k) :
    Stopped t room e (k.modifyRoots (Mutator.unwind ⟨0, 0, 0⟩)) := by
  cases hk with
  | strained hk => exact .strained hk
  | starved hlimit ht hroom => exact .starved hlimit ht.unwind hroom

/-- A round leaves nothing. -/
theorem round_tends (ht : Tends (.bare t) h) (hdepth : w.depth < 63) (hfuel : 2 * room < fuel)
    (hroom : h.nodes.size + w.nodesPerRound ≤ room) :
    Leads (w.round fuel) h
      (fun sum k => sum = tagSum w.depth 1 ∧
        Rounded { t with given := t.given + w.weak } w.nodesPerRound h k) (Stopped t room) := by
  have hsnapshot : h.roots.snapshot = ⟨0, 0, 0⟩ := by
    have hstack : h.roots.stack = #[] := ht.roots.stack
    have hnodeStack : h.roots.nodeStack = #[] := ht.roots.nodeStack
    unfold Roots.snapshot
    rw [hstack, hnodeStack, ht.roots.protect]
    rfl
  unfold round
  rw [leads_bind, leads_view, hsnapshot, leads_ensuring]
  refine (build_tends ht hdepth hfuel hroom).mono ?_ ?_
  · rintro sum k ⟨hsum, hk⟩
    refine (restoreTo_bottom k).leads ?_
    rintro _ _ rfl
    exact ⟨hsum, { hk with tends := hk.tends.unwind }⟩
  · intro e k hk
    refine (restoreTo_bottom k).leads ?_
    rintro _ _ rfl
    exact hk.unwind

/-- A check of a vacant heap finds nothing wrong, and nothing to say. -/
theorem Vacant.check_eq (hv : Vacant t h) : check h = .ok ⟨0, 0, 0⟩ := by
  have inv := hv.tends.inv
  have hlist : ∀ l, h.rings.toList l = [] := fun l =>
    List.eq_nil_iff_forall_not_mem.2 fun n hn => hv.not_isAllocated n (inv.listed l n hn)
  have hmoribund : h.moribund = [] := List.eq_nil_iff_forall_not_mem.2 fun n hn =>
    hv.not_isAllocated n ((inv.mem_moribund n).1 hn).1
  rw [inv.check_eq (inv.phase rfl) (hlist _)]
  unfold Heap.flaggedLive Heap.virginsLive
  rw [hlist, hmoribund, hv.nodeCount]
  rfl

theorem Vacant.checkInvariants (hv : Vacant t h) :
    Returns checkInvariants h fun isSound k => isSound = true ∧ k = h := by
  unfold Collector.checkInvariants checked Returns Leads
  simp only [bind, EStateM.bind, hv.check_eq]
  exact ⟨rfl, rfl⟩

theorem Rounded.refl (hv : Vacant t h) : Rounded t 0 h h :=
  { hv with size := rfl, born := id }

theorem Rounded.trans {t' : Tally} {c d : Nat} (h₁ : Rounded t c h k) (h₂ : Rounded t' d k l) :
    Rounded t' (c + d) h l :=
  { h₂.toVacant with
    size := by rw [h₂.size, h₁.size, Nat.add_assoc]
    born := fun hborn => h₂.born (h₁.born hborn) }

/-- The rounds that remain leave nothing, and what they return is the sum of the last tree. -/
theorem runRounds_tends (check : Bool) (remaining sum : Nat) (hv : Vacant t h)
    (hdepth : w.depth < 63) (hfuel : 2 * room < fuel)
    (hroom : h.nodes.size + remaining * w.nodesPerRound ≤ room) :
    Leads (w.runRounds fuel check remaining sum) h
      (fun last k => last = (if remaining = 0 then sum else tagSum w.depth 1) ∧
        Rounded { t with given := t.given + remaining * w.weak } (remaining * w.nodesPerRound) h k)
      (Stopped t room) := by
  -- A round ends in a vacant heap, from which the rounds that remain start afresh.
  induction remaining generalizing t h sum with
  | zero =>
    rw [Nat.zero_mul, Nat.zero_mul]
    exact ⟨rfl, .refl hv⟩
  | succ remaining ih =>
    rw [Nat.succ_mul] at hroom
    unfold runRounds
    rw [leads_bind]
    refine (round_tends hv.tends hdepth hfuel (by omega)).imp ?_
    rintro last k ⟨rfl, hk⟩
    have hsize := hk.size
    have hrest : Leads (w.runRounds fuel check remaining (tagSum w.depth 1)) k
        (fun last l => last = (if remaining + 1 = 0 then sum else tagSum w.depth 1) ∧
          Rounded { t with given := t.given + (remaining + 1) * w.weak }
            ((remaining + 1) * w.nodesPerRound) h l) (Stopped t room) := by
      refine (ih (tagSum w.depth 1) hk.toVacant (by omega)).mono ?_ ?_
      · rintro last l ⟨rfl, hl⟩
        have hgiven : t.given + (remaining + 1) * w.weak =
            t.given + w.weak + remaining * w.weak := by
          rw [Nat.succ_mul]
          omega
        rw [hgiven, Nat.succ_mul, Nat.add_comm (remaining * _)]
        exact ⟨by simp, hk.trans hl⟩
      · rintro e l (hl | ⟨hlimit, ht, hroom⟩)
        · exact .strained hl
        · exact .starved hlimit ht hroom
    cases check with
    | false => exact hrest
    | true =>
      show Leads (checkInvariants >>= fun _ => _) k _ _
      rw [leads_bind]
      refine hk.checkInvariants.leads ?_
      rintro _ _ ⟨rfl, rfl⟩
      exact hrest

/-! ## Whole runs -/

/-- Collecting once more leaves a vacant heap so. -/
theorem Rounded.purge {c : Nat} (hk : Rounded t c h k) (ht : Tends (.bare t) l)
    (hp : Purges D k l) : Rounded t c h l where
  tends := ht
  freed := fun n => by
    rw [Bool.eq_false_iff]
    intro hn
    exact hk.not_isAllocated n (hp.isAllocated (hp.not_mem_of_isAllocated hn) ▸ hn)
  size := hp.size.trans hk.size
  born := fun hborn n hn => by
    by_cases hmem : n ∈ D
    · rw [hp.freed n hmem]
      exact Stage.noConfusion
    · rw [hp.stage n hmem]
      exact hk.born hborn n (hp.size ▸ hn)

/-- Once none waits, every finalizer that was given has run. -/
theorem Tends.finalized_eq (ht : Tends (.bare t) h) (hpending : h.pending = [])
    (hdiscarded : t.discarded = []) : finalized h = t.given := by
  have hl := ht.inv.ledger Juncture.ready_rest.intact
  have hweak : h.roots.weak.toList = [] := List.length_eq_zero_iff.1 ht.roots.weak
  have hgiven : h.chronicle.given = t.given := congrArg Tally.given ht.tally
  have hnone : h.chronicle.discarded = [] := (congrArg Tally.discarded ht.tally).trans hdiscarded
  have hplaces := hl.places.length_eq
  unfold SlotTable.retained at hplaces
  rw [hl.queue, hweak, hnone, hpending] at hplaces
  rw [ht.ran, ← hgiven]
  simpa [Site.juncture, Juncture.rest] using hplaces.symm

/-- Nothing has been built at the start. -/
theorem vacant_start (config : Settings) (limit quarantine : Option Nat) (headroom : Nat → Nat) :
    Vacant ⟨config, headroom, limit, 0, []⟩ (Heap.start config limit quarantine headroom) where
  tends :=
    { inv := .start .tidying config limit quarantine headroom
      roots :=
        { stack := rfl
          nodeStack := rfl
          protect := rfl
          explicit := .refl _
          weak := rfl
          shallow := by
            show 0 + 0 + 2 < Status.countMax
            decide }
      tally := by cases quarantine <;> rfl
      ran := rfl
      given_le := Nat.le_refl 0
      limited := fun _ _ _ => Nat.zero_le _
      attached := fun n hn => by cases hn
      unborrowed := fun n p hp => by cases hp
      simple := fun n p hp => by cases hp
      external := rfl
      handles := rfl
      lost := rfl
      counts := fun n => (Status.count_fresh false).trans_le (Nat.zero_le 2)
      pins := by
        show 0 + 2 < Status.countMax
        decide }
  freed := fun n => rfl

theorem Vacant.bytes (hv : Vacant t h) : h.bytes = 0 := by
  have hbytes : h.bytes = h.storageBytes := hv.tends.inv.bytes.eq rfl
  rw [hbytes]
  unfold Heap.storageBytes
  refine List.sum_eq_zero fun size hsize => ?_
  obtain ⟨node, hnode, rfl⟩ := List.mem_map.1 hsize
  obtain ⟨n, hn⟩ := List.mem_iff_getElem?.1 hnode
  have hnot := hv.not_isAllocated n
  unfold Heap.isAllocated at hnot
  rw [← Array.getElem?_toList, hn] at hnot
  exact if_neg fun halloc => hnot (by simp [halloc])

/-- Every node that has been tried to allocate has been allocated. -/
theorem Rounded.bornCount {c : Nat} (hk : Rounded t c h k) (hh : h.nodes.size = 0) :
    k.bornCount = c := by
  have hborn : ∀ node ∈ k.nodes.toList, (if node.stage = .unborn then 0 else 1) = 1 := by
    intro node hnode
    obtain ⟨n, hn⟩ := List.mem_iff_getElem?.1 hnode
    have hlt : n < k.nodes.size := by
      rw [Array.getElem?_toList] at hn
      exact (Array.getElem?_eq_some_iff.1 hn).1
    have hstage := hk.born (fun m hm => absurd hm (by omega)) n hlt
    unfold Heap.stage at hstage
    rw [← Array.getElem?_toList, hn] at hstage
    exact if_neg hstage
  unfold Heap.bornCount
  rw [List.map_congr_left hborn, List.map_const', List.sum_replicate, Array.length_toList, hk.size]
  simp [hh]

/-- The sum of the tags of a tree in closed form. -/
theorem six_tagSum (depth tag : Nat) :
    6 * tagSum depth tag + 3 * 2 ^ (depth + 1) + (2 * tag + 1) =
      (2 * tag + 1) * 4 ^ (depth + 1) + 3 := by
  induction depth generalizing tag with
  | zero =>
    unfold tagSum
    ring
  | succ depth ih =>
    have hleft := ih (2 * tag)
    have hright := ih (2 * tag + 1)
    unfold tagSum
    rw [Nat.pow_succ 2, Nat.pow_succ 4]
    linarith

theorem tagSum_one (depth : Nat) : tagSum depth 1 = (2 ^ (depth + 1) - 1) * 2 ^ depth := by
  have hsum := six_tagSum depth 1
  rw [show 4 = 2 * 2 from rfl, Nat.mul_pow, Nat.pow_succ] at hsum
  rw [Nat.pow_succ, Nat.sub_mul]
  have hsquare : 2 ^ depth * 2 * 2 ^ depth = 2 * (2 ^ depth * 2 ^ depth) := by ring
  have hfour : 2 ^ depth * 2 * (2 ^ depth * 2) = 4 * (2 ^ depth * 2 ^ depth) := by ring
  rw [hfour] at hsum
  rw [hsquare]
  omega

/-- The counts of the workload fit in words, and so does the sum of the tags if trees are built. -/
structure Fits (w : Workload) : Prop where
  counts : w.nodesBuilt?.isSome
  sum : 0 < w.rounds → (2 ^ (w.depth + 1) - 1) * 2 ^ w.depth ≤ Word.largest

theorem Fits.nodesBuilt (hw : w.Fits) :
    w.depth < 63 ∧ w.nodesBuilt? = some (w.rounds * w.nodesPerRound) := by
  have hfit : ∀ {n m : Nat}, Word.fit? n = some m → m = n := fun {n m} hm => by
    unfold Word.fit? at hm
    split_ifs at hm
    exact (Option.some.inj hm).symm
  obtain ⟨built, hbuilt⟩ := Option.isSome_iff_exists.1 hw.counts
  obtain ⟨n, hround, hall⟩ := Option.bind_eq_some_iff.1 hbuilt
  unfold nodesPerRound? at hround
  split_ifs at hround with hdepth
  rw [hbuilt, hfit hall, hfit hround]
  exact ⟨by omega, rfl⟩

/-- A run has turns enough for every node that it allocates. -/
theorem two_mul_lt_nodeBound (hdepth : w.depth < 63) :
    2 * (w.rounds * w.nodesPerRound) < w.nodeBound := by
  have hmin : { w with depth := min w.depth 64 } = w := by
    rw [Nat.min_eq_left (by omega)]
  unfold nodeBound
  rw [hmin]
  omega

/-- A run leaves nothing, and reports what it has done. -/
theorem run_tends (check : Bool) (hw : w.Fits) (hv : Vacant t h) (hh : h.nodes.size = 0)
    (hgiven : t.given = 0) (hdiscarded : t.discarded = []) :
    Leads (w.run check) h
      (fun r k => Rounded { t with given := w.rounds * w.weak } (w.rounds * w.nodesPerRound) h k ∧
        r = { rounds := w.rounds, nodesBuilt := w.rounds * w.nodesPerRound,
              finalized := w.rounds * w.weak,
              treeSum := if w.rounds = 0 then 0 else tagSum w.depth 1,
              nodesLeft := 0, stats := k.stats, trigger := k.trigger })
      (Stopped t (w.rounds * w.nodesPerRound)) := by
  obtain ⟨hdepth, hbuilt⟩ := hw.nodesBuilt
  have hfuel := two_mul_lt_nodeBound hdepth
  unfold run
  rw [leads_bind]
  refine (runRounds_tends check w.rounds 0 hv hdepth hfuel (by omega)).imp ?_
  rintro sum k₁ ⟨rfl, hk₁⟩
  rw [hgiven, Nat.zero_add] at hk₁
  have hsize₁ := hk₁.size
  have hfuel₁ : 2 * k₁.nodes.size < w.nodeBound := by omega
  rw [leads_bind, leads_discard]
  refine (forceFullCollection_tends hk₁.tends (Site.anchored_of_flight rfl) hfuel₁).mono ?_ ?_
  · rintro _ k₂ ⟨ht₂, hp₂, -⟩
    have hk₂ := hk₁.purge ht₂ hp₂
    have hsize₂ := hk₂.size
    rw [leads_bind, leads_discard]
    refine (runLiteSweep_tends ht₂ (by omega)).leads ?_
    rintro _ k₃ ⟨ht₃, ⟨D, hp₃⟩, hnil⟩
    have hk₃ := hk₂.purge ht₃ hp₃
    rw [hbuilt]
    simp only [leads_view]
    rw [ht₃.finalized_eq hnil hdiscarded, hk₃.nodeCount]
    exact ⟨hk₃, rfl⟩
  · rintro e k ⟨rfl, hstrained, -, -⟩
    exact .strained hstrained

/-- A run fails if it does in one of its first rounds. -/
theorem runRounds_error_of_prefix {check : Bool} {rounds sum : Nat} (more : Nat)
    (hrun : w.runRounds fuel check rounds sum h = .error e k) :
    w.runRounds fuel check (rounds + more) sum h = .error e k := by
  induction rounds generalizing sum h with
  | zero => cases hrun
  | succ rounds ih =>
    rw [Nat.succ_add]
    unfold runRounds at hrun ⊢
    rw [bind_eq_error] at hrun ⊢
    refine hrun.imp_right ?_
    rintro ⟨last, h₁, hround, hrest⟩
    refine ⟨last, h₁, hround, ?_⟩
    cases check with
    | false => exact ih hrest
    | true =>
      change (checkInvariants >>= fun _ => _) h₁ = _ at hrest
      show (checkInvariants >>= fun _ => _) h₁ = _
      rw [bind_eq_error] at hrest ⊢
      refine hrest.imp_right ?_
      rintro ⟨isSound, h₂, hcheck, hrest⟩
      refine ⟨isSound, h₂, hcheck, ?_⟩
      cases isSound with
      | false => cases hrest
      | true => exact ih hrest

/-- Where memory has no limit only the trigger stops a workload. -/
theorem Stopped.strained_of_unlimited (hk : Stopped t room e k) (ht : t.limit = none) :
    e = .overflow ∧ k.Strained := by
  cases hk with
  | strained hk => exact ⟨rfl, hk⟩
  | starved hlimit htends _ => exact absurd ((congrArg Tally.limit htends.tally).trans ht) hlimit

end Workload

/-- The operation fails because an adaptive trigger does not fit in a word. -/
def Act.Overruns {α : Type} (x : Act α) (h : Heap) : Prop :=
  ∃ k, x h = .error .overflow k ∧ k.Strained

theorem Act.Leads.not_overruns {α : Type} {x : Act α} {h : Heap} {Q : α → Heap → Prop}
    (hx : Leads x h Q fun e _ => e ≠ .overflow) : ¬x.Overruns h := fun ⟨_, herror, _⟩ =>
  hx.of_error herror rfl

namespace Workload

-- The runs below are left to the kernel.
attribute [local irreducible] Workload.run

end Workload

end HybridHeap
