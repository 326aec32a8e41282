import HybridHeap.Proofs.Pinning
import HybridHeap.Proofs.Sweeping

/-!
# What marking and sweeping leave of a quiet heap

Where destructors do nothing of their own, the sweep of a full collection drops the payloads of the
nodes that marking has missed, the weak entries keyed by these have expired by then, and nothing
else has gone. It queues those of the nodes it comes to that nothing counts any more, besides those
whose count went to zero. What is on the live list afterwards is what marking came to, in the order
in which it did. This is so also where nodes are detached already, or look marked, or have their
payload borrowed.
-/

namespace HybridHeap

open Collector Act

-- Unification would run marking where it only has to name it.
attribute [local irreducible] Collector.mark

variable {law : Law} {w : Juncture} {h h' k l : Heap} {n : NodeId} {run : Runner}
variable {D D' S : Set NodeId}

/-! ## Sweeping the live list -/

/-- The payloads of some nodes have gone, and those of the nodes that nothing counts are queued. -/
structure Withers (D : Set NodeId) (h k : Heap) : Prop extends Remains D ∅ h k, Lasting h k where
  stage : k.stage = h.stage
  detached : ∀ n, k.isDetached n = true ↔ h.isDetached n = true ∨ n ∈ D
  le : ∀ n, (k.status n).count ≤ (h.status n).count
  queued : ∀ n ∈ h.moribund, n ∈ k.moribund
  orphaned : ∀ n, (k.status n).count = 0 → n ∈ D ∨ (k.status n).count < (h.status n).count →
    n ∈ k.moribund
  fresh : ∀ n ∈ k.moribund, n ∈ h.moribund ∨ (k.status n).count = 0 ∧
    (n ∈ D ∨ (k.status n).count < (h.status n).count)

namespace Withers

theorem refl (h : Heap) : Withers ∅ h h :=
  { Remains.refl h, Lasting.refl h with
    stage := rfl
    detached := fun n => by simp
    le := fun n => Nat.le_refl _
    queued := fun n hn => hn
    orphaned := fun n _ hn => absurd (hn.resolve_left (Set.notMem_empty n)) (Nat.lt_irrefl _)
    fresh := fun n hn => .inl hn }

theorem trans (h₁ : Withers D h k) (h₂ : Withers D' k l) : Withers (D ∪ D') h l := by
  have hremains := h₁.toRemains.trans h₂.toRemains
  rw [Set.union_empty] at hremains
  exact
    { hremains, h₁.toLasting.trans h₂.toLasting with
      stage := h₂.stage.trans h₁.stage
      detached := fun n => by rw [h₂.detached, h₁.detached, or_assoc, Set.mem_union]
      le := fun n => (h₂.le n).trans (h₁.le n)
      queued := fun n hn => h₂.queued n (h₁.queued n hn)
      orphaned := fun n h0 hn => by
        by_cases hstep : n ∈ D' ∨ (l.status n).count < (k.status n).count
        · exact h₂.orphaned n h0 hstep
        · -- The second step did not touch the node, so the first has queued it.
          obtain ⟨hout, hsame⟩ := not_or.1 hstep
          have h1 := h₁.le n
          have h2 := h₂.le n
          refine h₂.queued n (h₁.orphaned n (by omega) ?_)
          rw [Set.mem_union, or_assoc] at hn
          exact hn.imp_right fun hn => by
            have := hn.resolve_left hout
            omega
      fresh := fun n hn => by
        have h1 := h₁.le n
        have h2 := h₂.le n
        rcases h₂.fresh n hn with hold | ⟨h0, hlow⟩
        · refine (h₁.fresh n hold).imp_right fun hnew => ⟨by omega, ?_⟩
          exact hnew.2.imp (fun hD => .inl hD) fun hlow => by omega
        · exact .inr ⟨h0, hlow.imp (fun hD => .inr hD) fun hlow => by omega⟩ }

/-- A node has withered when, off its list, its payload has been dropped and it has been queued if
nothing counts it. -/
theorem of_sheds (hs : Sheds n (h.modifyRings (·.unlink (.node n))) k) (hr : Recounted k l)
    (hcount : ∀ m, (l.status m).count = (k.status m).count)
    (hqueue : ∀ m, m ∈ l.moribund ↔ (m = n ∧ (k.status n).count = 0) ∨ m ∈ k.moribund) :
    Withers {n} h l := by
  have hunlinked : Remains ∅ ∅ h (h.modifyRings (·.unlink (.node n))) := { Remains.refl h with }
  have hremains := (hunlinked.trans hs.toRemains).trans (.of_restamped hr.toRestamped)
  simp only [Set.empty_union, Set.union_empty] at hremains
  have hlasting : Lasting h k := { hs.toLasting with }
  exact
    { hremains, hlasting.trans (.of_restamped hr.toRestamped) with
      stage := hr.stage.trans hs.stage
      detached := fun m => by
        rw [hr.isDetached, hs.detached, Bool.or_eq_true, decide_eq_true_iff]
        rfl
      le := fun m => (hcount m).trans_le (hs.le m)
      queued := fun m hm => (hqueue m).2 (.inr (hs.queued m hm))
      orphaned := fun m h0 hm => by
        rw [hcount] at h0 hm
        rcases hm with rfl | hlow
        · exact (hqueue m).2 (.inl ⟨rfl, h0⟩)
        · exact (hqueue m).2 (.inr (hs.orphaned m hlow h0))
      fresh := fun m hm => by
        rw [hcount]
        rcases (hqueue m).1 hm with ⟨rfl, h0⟩ | hold
        · exact .inr ⟨h0, .inl rfl⟩
        · exact (hs.fresh m hold).imp_right fun hlow => ⟨hlow.2, .inr hlow.1⟩ }

end Withers

namespace Collector

/-- Sweeping the live list of a quiet heap drops the payloads of the nodes on it. -/
theorem sweepLive_quiet (hidle : run.Idle) (hquiet : h.Quiet) {kept : List (NodeId × Bool)}
    (inv : Invariant law { w with guard := some .full, kept := some kept } h) (hcalm : w.Idle)
    (fuel detached : Nat) (hfuel : (h.rings.toList liveList).length < fuel) :
    Returns (sweepLive run fuel detached) h fun total h' =>
      total = detached + (h.rings.toList liveList).length ∧
        Invariant law { w with guard := some .full, kept := some kept } h' ∧
        h'.rings.toList liveList = [] ∧ Withers {n | n ∈ h.rings.toList liveList} h h' := by
  induction fuel generalizing h detached with
  | zero => exact absurd hfuel (Nat.not_lt_zero _)
  | succ fuel ih =>
    have hfront := inv.rings.front?_eq (l := liveList) (by rw [inv.size_sentinels]; decide)
    unfold sweepLive
    simp only [Returns, leads_bind, leads_view, hfront]
    cases hlive : h.rings.toList liveList with
    | nil =>
      have hnone : {n | n ∈ ([] : List NodeId)} = ∅ := by simp
      rw [hnone]
      exact ⟨rfl, inv, hlive, .refl h⟩
    | cons n rest =>
      have hmem : n ∈ h.rings.toList liveList := by
        rw [hlive]
        exact List.mem_cons_self
      have hn := inv.listed liveList n hmem
      have hlost := inv.loses_of_mem_liveList hmem
      have hsame : Remains ∅ ∅ h (h.modifyRings (·.unlink (.node n))) := { Remains.refl h with }
      have hrest : (h.modifyRings (·.unlink (.node n))).rings.toList liveList = rest := by
        show (h.rings.unlink (.node n)).toList liveList = rest
        rw [inv.rings.toList_unlink, hlive, List.erase_cons_head]
      -- One turn withers the node and leaves the rest of the list.
      have hturn : ∀ k, Invariant law { w with guard := some .full, kept := some kept } k →
          Withers {n} h k → k.rings = (h.modifyRings (·.unlink (.node n))).rings →
          Returns (sweepLive run fuel (detached + 1)) k fun total h' =>
            total = detached + (n :: rest).length ∧
              Invariant law { w with guard := some .full, kept := some kept } h' ∧
              h'.rings.toList liveList = [] ∧ Withers {m | m ∈ n :: rest} h h' := by
        intro k inv' hw hrings
        rw [← hrings] at hrest
        rw [hlive, List.length_cons] at hfuel
        have hih := ih (hw.quiet hquiet) inv' (detached + 1) (by rw [hrest]; omega)
        rw [hrest] at hih
        refine hih.mono ?_
        rintro total h' ⟨htotal, inv'', hempty, hw'⟩
        refine ⟨?_, inv'', hempty, ?_⟩
        · rw [htotal, List.length_cons]
          omega
        · have hall := hw.trans hw'
          have hset : ({n} ∪ {m | m ∈ rest} : Set NodeId) = {m | m ∈ n :: rest} := by
            ext m
            simp
          rwa [hset] at hall
      simp only [List.head?_cons, leads_bind, leads_update, leads_view]
      refine (detach_quiet (w := { w with guard := some .full, kept := some kept }) hidle
        (hsame.quiet hquiet) (inv.unlink hlost (.inl rfl)) (fun _ _ hw => by cases hw) hn
        hcalm.parting hlost (hcalm.dropping ▸ List.not_mem_nil)
        (fun hs => inv.not_mem_building hn (hcalm.started n hs))
        (.inr ⟨kept, rfl, hlost kept rfl⟩)).leads ?_
      rintro _ h₁ ⟨inv₁, hs⟩
      have hn₁ : h₁.isAllocated n = true := by
        rw [Heap.isAllocated_iff, hs.stage]
        exact Heap.isAllocated_iff.1 hn
      split
      case isTrue h0 =>
        simp only [leads_bind]
        refine (makeMoribund_spec inv₁ hn₁ (by simp [Juncture.doomed])).leads ?_
        rintro _ h₂ ⟨inv₂, hr, hcount, hqueue⟩
        have hwithers : Withers {n} h h₂ := .of_sheds hs hr hcount fun m => by
          rw [hqueue, and_iff_left (beq_iff_eq.1 h0)]
        exact hturn h₂ inv₂ hwithers (hr.ringsEq.trans hs.rings)
      case isFalse h0 =>
        have hwithers : Withers {n} h h₁ :=
          .of_sheds hs (.refl h₁) (fun _ => rfl) fun m => by
            rw [or_iff_right fun hzero => h0 (beq_iff_eq.2 hzero.2)]
        exact hturn h₁ inv₁ hwithers hs.rings

end Collector

/-! ## Marking and sweeping -/

/-- The nodes that a full collection marks, in the order in which it does. -/
def Heap.order (h : Heap) : List NodeId :=
  (Marking.run { h with inhibitors := h.inhibitors + 1, phase := .marking }).1.heap.rings.toList
    reachableList

/-- What marking and sweeping leave: the payloads of some nodes have gone with the weak entries
keyed by them, and of what nothing counts then those are queued that were queued or counted before
or that the sweep has come to. -/
structure Condemned (S : Set NodeId) (h k : Heap) : Prop
    extends Remains S S h k, Lasting h k where
  stage : k.stage = h.stage
  detached : ∀ n, k.isDetached n = true ↔ h.isDetached n = true ∨ n ∈ S
  le : ∀ n, (k.status n).count ≤ (h.status n).count
  queue : ∀ n, (k.status n).count = 0 → (n ∈ k.moribund ↔
    n ∈ h.moribund ∨ (n ∈ h.rings.toList liveList ∧ n ∈ S) ∨ 0 < (h.status n).count)

namespace Condemned

/-- A node that has storage afterwards had it before. -/
theorem isAllocated (hc : Condemned S h k) : k.isAllocated n = true ↔ h.isAllocated n = true := by
  rw [Heap.isAllocated_iff, Heap.isAllocated_iff, hc.stage]

end Condemned

/-- Between full collections what is on the live list does not look marked to the next. -/
theorem Heap.Settled.isStale_eq_false (hs : h.Settled) (hn : n ∈ h.rings.toList liveList) :
    h.isStale n = false := by
  show ((h.status n).contains .mark == !h.cycle) = false
  rw [hs.2 n hn]
  cases h.cycle <;> rfl

/-- What marking leaves on the live list is what it has missed of it. -/
theorem Surveyed.mem_live_iff (hs : Surveyed h k) (inv : Invariant law w h) (hsettled : h.Settled) :
    n ∈ k.rings.toList liveList ↔ n ∈ h.rings.toList liveList ∧ n ∈ h.missed := by
  rw [hs.live]
  refine and_congr_right fun hn => ?_
  have halloc := inv.listed liveList n hn
  have hfresh := hsettled.isStale_eq_false hn
  unfold Heap.missed
  simp [halloc, hfresh]

/-- What has storage but is not on the live list between full collections has no payload. -/
theorem Invariant.payload?_eq_none_of_unlisted (inv : Invariant law w h) (hcalm : w.Idle)
    (hsettled : h.Settled) (hn : h.isAllocated n = true) (hout : n ∉ h.rings.toList liveList) :
    h.isDetached n = true ∧ h.payload? n = none := by
  have hdetached : h.isDetached n = true := by
    by_contra hattached
    have hlisted := inv.attached n (by simp [hcalm.loose]) hn
      (Bool.eq_false_of_not_eq_true hattached)
    rw [hsettled.1, or_iff_left List.not_mem_nil] at hlisted
    exact hout hlisted
  exact ⟨hdetached, (inv.emptied n (by simp [hcalm.dropping]) hn).1 hdetached⟩

/-- Sweeping the live list after marking condemns what marking has missed. -/
theorem Surveyed.condemned (hs : Surveyed h k) (inv : Invariant law w h) (hcalm : w.Idle)
    (hsettled : h.Settled) (hw : Withers {n | n ∈ k.rings.toList liveList} k l) :
    Condemned h.missed h l := by
  have hlive : ∀ n, n ∈ k.rings.toList liveList ↔ n ∈ h.rings.toList liveList ∧ n ∈ h.missed :=
    fun n => hs.mem_live_iff inv hsettled
  have hremains := hs.toRemains.trans hw.toRemains
  rw [Set.empty_union, Set.union_empty] at hremains
  -- What has been missed off the live list was detached before.
  have hold : ∀ n ∈ h.missed, n ∉ k.rings.toList liveList →
      h.isDetached n = true ∧ h.payload? n = none := fun n hn hout =>
    inv.payload?_eq_none_of_unlisted hcalm hsettled hn.1 fun hmem => hout ((hlive n).2 ⟨hmem, hn⟩)
  refine { hremains.widen (fun n hn => ((hlive n).1 hn).2) fun n hn hout => (hold n hn hout).2,
      hs.toLasting.trans hw.toLasting with
    stage := hw.stage.trans hs.stage
    detached := fun n => ?_
    le := fun n => (hw.le n).trans (hs.le n)
    queue := fun n h0 => ?_ }
  · rw [hw.detached, hs.detached]
    constructor
    · exact fun hn => hn.imp_right fun hmem => ((hlive n).1 hmem).2
    · rintro (hd | hn)
      · exact .inl hd
      · by_cases hmem : n ∈ k.rings.toList liveList
        · exact .inr hmem
        · exact .inl (hold n hn hmem).1
  · have h1 := hs.le n
    have h2 := hw.le n
    rw [← hlive]
    constructor
    · intro hn
      rcases hw.fresh n hn with hq | ⟨-, hmem | hlow⟩
      · exact (hs.fresh n hq).imp_right fun hlow => .inr (by omega)
      · exact .inr (.inl hmem)
      · exact .inr (.inr (by omega))
    · rintro (hq | hmem | hpos)
      · exact hw.queued n (hs.queued n hq)
      · exact hw.orphaned n h0 (.inl hmem)
      · -- The count went to zero in marking, when the entry expired that held it, or in the sweep.
        by_cases hzero : (k.status n).count = 0
        · exact hw.queued n (hs.orphaned n (by omega) hzero)
        · exact hw.orphaned n h0 (.inr (by omega))

namespace Collector

/-- Marking and sweeping a quiet heap condemn what marking misses. -/
theorem markAndSweep_condemns (hidle : run.Idle) (hquiet : h.Quiet) (hcalm : w.Idle)
    (hguard : w.guard = none) (hscarred : w.scarred = false) (inv : Invariant law w h) {fuel : Nat}
    (hfuel : h.nodes.size < fuel) :
    Returns (markAndSweep run fuel) h fun result k =>
      result = ({n | h.Found n ∧ h.isStale n = false}.ncard,
        {n | n ∈ h.rings.toList liveList ∧ n ∈ h.missed}.ncard) ∧
      Invariant law { w with guard := none, phase := .sweeping } k ∧ Condemned h.missed h k ∧
      k.rings.toList liveList = h.order := by
  have hw := Juncture.eq_unguarded hguard
  have hsettled : h.Settled := inv.settled hscarred (by simp [hguard])
  have hturns : h.Turns := inv.turns hscarred hguard
  have inv₀ := inv
  rw [hw] at inv
  have hmarking : Invariant law { w with guard := some .full, phase := .marking }
      { h with inhibitors := h.inhibitors + 1, phase := .marking } :=
    (inv.inhibit.beginFull hcalm.kept).enterPhase hcalm.parting .marking
  have hfound : ∀ n, ({ h with inhibitors := h.inhibitors + 1, phase := .marking } : Heap).Found n ↔
      h.Found n := fun n =>
    ⟨fun hn => hn.congr rfl rfl rfl rfl, fun hn => hn.congr rfl rfl rfl rfl⟩
  have hmissed : ({ h with inhibitors := h.inhibitors + 1, phase := .marking } : Heap).missed =
      h.missed := by
    ext n
    exact and_congr_right' (and_congr_left' (not_congr (hfound n)))
  unfold markAndSweep inhibiting sweep enterPhase
  simp only [Returns, leads_bind, leads_update, leads_ensuring, leads_pure]
  refine (mark_surveys (w := { w with phase := .marking }) hmarking (hcalm.during _ _) rfl
    (fun _ => hsettled) fun _ => hturns).leads ?_
  rintro marked h₁ ⟨inv₁, hmarked, hs₁, horder⟩
  have hsurveyed : Surveyed h h₁ := by
    have hremains := hs₁.toRemains
    have hlive := hs₁.live
    have hreached := hs₁.reached
    rw [hmissed] at hremains
    simp only [hfound] at hlive hreached
    exact { hremains, hs₁.toEased, hs₁.toLasting with
      stage := hs₁.stage, detached := hs₁.detached, live := hlive, reached := hreached }
  have hlive : {n | n ∈ h₁.rings.toList liveList} =
      {n | n ∈ h.rings.toList liveList ∧ n ∈ h.missed} :=
    Set.ext fun n => hsurveyed.mem_live_iff inv₀ hsettled
  have hlength : (h₁.rings.toList liveList).length =
      {n | n ∈ h.rings.toList liveList ∧ n ∈ h.missed}.ncard := by
    rw [← hlive, ← List.toFinset_card_of_nodup (inv₁.rings.nodup _), ← Set.ncard_coe_finset]
    simp
  have hbound : (h₁.rings.toList liveList).length ≤ h.nodes.size := by
    have hle := inv₁.rings.length_le liveList
    rwa [inv₁.size_nodes, hsurveyed.size] at hle
  have hsweeping : Invariant law
      { w with guard := some .full, kept := some h₁.keeps, phase := .sweeping }
      { h₁ with phase := .sweeping } := inv₁.enterPhase hcalm.parting .sweeping
  refine (sweepLive_quiet (w := { w with phase := .sweeping }) (h := { h₁ with phase := .sweeping })
    hidle (hsurveyed.quiet hquiet) hsweeping (hcalm.during _ _) fuel 0
    (by show (h₁.rings.toList liveList).length < fuel; omega)).leads ?_
  rintro detached h₂ ⟨hdetached, inv₂, hempty, hwithers⟩
  have hcondemned : Condemned h.missed h h₂ :=
    Surveyed.condemned (k := { h₁ with phase := .sweeping }) { hsurveyed with } inv₀ hcalm hsettled
      hwithers
  -- What marking has put on the reachable list stays on it, and becomes the live list.
  have hkeeps : h₂.rings.toList reachableList = h.order := by
    have hsame := (Heap.keeps_eq_iff.1 (inv₂.kept _ rfl).symm).1
    exact hsame.symm.trans horder
  have inv₃ : Invariant law { w with guard := none, phase := .sweeping }
      { h₂.modifyRings (·.spliceBack liveList reachableList) with
        inhibitors := h₂.inhibitors - 1 } :=
    Invariant.permit (w := { w with phase := .sweeping }) (inv₂.splice hcalm.kept hempty)
  refine ⟨?_, inv₃, { hcondemned with }, ?_⟩
  · rw [hmarked, hdetached, Nat.zero_add]
    simp only [hfound]
    exact congrArg _ hlength
  · have hlists : liveList < h₂.rings.sentinels.size ∧ reachableList < h₂.rings.sentinels.size := by
      rw [inv₂.size_sentinels]
      decide
    show (h₂.rings.spliceBack liveList reachableList).toList liveList = h.order
    rw [inv₂.rings.toList_spliceBack hlists.1 hlists.2 (by decide), if_neg (by decide), if_pos rfl,
      hempty, List.nil_append, hkeeps]

/-- Marking shows neither in payloads nor in the roots nor in the queue of finalizers. -/
theorem overlooks_finalizers :
    Marking.Overlooks fun h : Heap => (h.payload?, h.roots, h.pending) where
  paint := fun h n => congrArg (·, h.roots, h.pending) (funext fun m => h.payload?_setStatus n m _)
  log := fun _ _ _ => rfl
  flip := fun _ => rfl

/-- It hands over the finalizers of the entries that expire. -/
theorem handsOver_mark : OnReturn mark h (HandsOver h) := by
  have hreachable : OnReturn markReachable h (HandsOver h) := by
    have hsame := overlooks_finalizers.run h
    simp only [Prod.mk.injEq] at hsame
    exact leads_markReachable.2 (.of_eq hsame.1 hsame.2.1 hsame.2.2)
  unfold mark
  exact .bind hreachable fun _ _ _ => .bind (settles_expireEntries _).handsOver fun _ _ _ => .pure _

/-- So do marking and sweeping. -/
theorem handsOver_markAndSweep (hidle : run.Idle) (fuel : Nat) :
    OnReturn (markAndSweep run fuel) h (HandsOver h) := by
  have hsweep : ∀ h, OnReturn (sweep run fuel) h (HandsOver h) := fun _ =>
    .bind (undisturbed_sweepLive hidle fuel 0).settles.handsOver fun _ _ _ =>
      .bind (.update (.of_nodes rfl rfl rfl)) fun _ _ _ => .pure _
  refine .bind (.update (.of_nodes rfl rfl rfl)) fun _ _ _ =>
    .ensuring ?_ fun _ => .update (.of_nodes rfl rfl rfl)
  exact .bind (.update (.of_nodes rfl rfl rfl)) fun _ _ _ => .bind handsOver_mark fun _ _ _ =>
    .bind (.update (.of_nodes rfl rfl rfl)) fun _ h₁ _ => .bind (hsweep h₁) fun _ _ _ => .pure _

/-- So does a full collection. -/
theorem handsOver_markSweep (hidle : run.Idle) (fuel : Nat) :
    OnReturn (markSweep run fuel) h (HandsOver h) := by
  rw [markSweep_eq]
  -- Where the collection is held off it does not return, and what comes after is the same text.
  refine .bind (.view _) fun _ _ _ => .ite (.bind (.fatal _) fun _ _ _ => ?_) ?_
  all_goals
    refine .bind (handsOver_markAndSweep hidle fuel) fun found _ _ => ?_
    obtain ⟨marked, detached⟩ := found
    exact .bind (handsOver_liteSweep hidle fuel) fun _ _ _ =>
      .bind (.update (.of_nodes rfl rfl rfl)) fun _ _ _ => .pure _

/-- A full collection of a quiet heap condemns what marking misses, and its closing lite sweep
prunes what is left. -/
theorem markSweep_condemns (hidle : run.Idle) (hquiet : h.Quiet) (htidy : law.tidy = true)
    (hready : w.guard = none → w.Idle) (hopen : w.guard = none → w.swept = none)
    (htorn : w.torn = false) (hscarred : w.scarred = false) (inv : Invariant law w h)
    (hi : h.isInhibited = false) {fuel : Nat} (hfuel : 2 * h.nodes.size < fuel) :
    Returns (markSweep run fuel) h fun result h' => ∃ k,
      result = { marked := {n | h.Found n ∧ h.isStale n = false}.ncard,
                 detached := {n | n ∈ h.rings.toList liveList ∧ n ∈ h.missed}.ncard,
                 reclaimed := k.garbage.ncard } ∧
      Invariant law { w with phase := .sweeping } k ∧ Condemned h.missed h k ∧
      k.rings.toList liveList = h.order ∧
      Invariant law { w with phase := .idle } h' ∧ Pruned k h' := by
  have hguard := guard_eq_none inv hi
  have hcalm := hready hguard
  have hw := Juncture.eq_unguarded hguard
  rw [markSweep_eq]
  simp only [Returns, leads_bind, leads_view, hi, Bool.false_eq_true, if_false]
  refine (markAndSweep_condemns hidle hquiet hcalm hguard hscarred inv (by omega)).leads ?_
  rintro _ k ⟨rfl, inv₁, hc, horder⟩
  have hi₁ : k.isInhibited = false :=
    (isInhibited_eq inv inv₁ hguard rfl hc.guards).trans hi
  refine (liteSweep_prunes (w := { w with guard := none, phase := .sweeping }) hidle
    (hc.quiet hquiet) htidy (fun _ => (hcalm.guarded none).during _ _) (fun _ => hopen hguard)
    htorn inv₁ hi₁ (by rw [hc.size]; exact hfuel)).leads ?_
  rintro reclaimed h' ⟨rfl, inv₂, hp⟩
  have inv₃ := inv₂.enterPhase hcalm.parting .idle
  rw [← hguard] at inv₁ inv₃
  exact ⟨k, rfl, inv₁, hc, horder, inv₃, { hp with }⟩

end Collector

end HybridHeap
