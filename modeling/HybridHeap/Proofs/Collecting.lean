import HybridHeap.Collector.FullCollection
import HybridHeap.Proofs.Marking
import HybridHeap.Proofs.Reclaiming

/-!
# Full collections keep the invariant

A full collection goes through two junctures of its own: while it marks and sweeps, the reachable
list may hold nodes and the nodes left on the live list may be unmarked; once the reachable list has
become the live list, everything is as it is between operations. A collection fails in the
arithmetic that retunes the trigger, in a heap that may be torn in its closing lite sweep, and in
one that may also be scarred wherever a destructor is cut short. What the sweep has left undone
then is what scars a heap.
-/

namespace HybridHeap

open Collector Act

-- Unification would run marking where it only has to name it.
attribute [local irreducible] Collector.mark

variable {law : Law} {w : Juncture} {h : Heap} {n : NodeId}

namespace Juncture

/-- During the sweep of a full collection the mutator may run in destructors. -/
theorem ready_full (w : Juncture) (hw : w.guard = some .full) (hdying : w.dying ≠ [])
    (hphase : w.phase = .sweeping) (hparting : w.parting = []) : w.Ready where
  idle := fun hnone => by
    rw [hw] at hnone
    cases hnone
  calm := fun hnone => by
    rw [hw] at hnone
    cases hnone
  alone := fun hnone => by
    rw [hw] at hnone
    cases hnone
  swept := fun hnone => by
    rw [hw] at hnone
    cases hnone
  collected := fun hnone => by
    rw [hw] at hnone
    cases hnone
  dying := fun pins doomed hlite => by
    rw [hw] at hlite
    cases hlite
  still := fun hnone => absurd hnone hdying
  sweeping := fun _ => hphase
  parting := hparting

/-- Where a collection may begin, it may go on record. -/
theorem Open.unrecorded (hw : w.Open) (hguard : w.guard = none) (records : List CollectionResult) :
    ∀ l, w.collected = some l → records = l := fun l hl => by
  rw [hw.collected hguard] at hl
  cases hl

/-- Where a collection may be asked for, one may with a further node being built. -/
theorem Open.build (hw : w.Open) (n : NodeId) : Open { w with building := n :: w.building } where
  idle := fun hnone =>
    have hidle := hw.idle hnone
    { hidle with started := fun m hm => List.mem_cons_of_mem n (hidle.started m hm) }
  calm := hw.calm
  alone := hw.alone
  swept := hw.swept
  collected := hw.collected

/-- Where the mutator may run, the destructor may of a payload whose node is not to get any
storage. -/
theorem Ready.start (hw : w.Ready) (n : NodeId) :
    Ready { w with
      building := n :: w.building, dying := n :: w.dying, started := n :: w.started } where
  idle := fun hnone =>
    have hidle := hw.idle hnone
    { hidle with
      started := fun m hm =>
        List.mem_cons.2 ((List.mem_cons.1 hm).imp_right (hidle.started m)) }
  calm := hw.calm
  alone := hw.alone
  swept := hw.swept
  collected := hw.collected
  dying := fun pins doomed hlite =>
    ⟨List.cons_ne_nil _ _, fun m hm => List.mem_cons_of_mem n ((hw.dying pins doomed hlite).2 m hm)⟩
  still := fun hnone => absurd hnone (List.cons_ne_nil _ _)
  sweeping := hw.sweeping
  parting := hw.parting

end Juncture

/-- A full collection may start when collections are held off. -/
theorem Invariant.beginFull (inv : Invariant law { w with guard := some .plain } h)
    (hkept : w.kept = none) : Invariant law { w with guard := some .full } h :=
  { inv with
    settled := fun _ hw => absurd rfl hw
    lagging := fun _ l hl => by
      rw [Juncture.markedList_full hkept] at hl
      cases hl
    sheltered := fun _ _ hw => by cases hw
    doomed := fun _ hw => by cases hw }

/-- In a scarred heap a full collection that is sweeping may be cut short. -/
theorem Invariant.interrupt {kept : Option (List (NodeId × Bool))}
    (inv : Invariant law { w with guard := some .full, kept } h) (hkept : w.kept = none)
    (hw : w.scarred = true) : Invariant law { w with guard := some .plain } h :=
  { inv with
    kept := fun l hl => absurd (hkept.symm.trans hl) (by simp)
    current := fun hi => absurd (hw.symm.trans hi.2) (by simp)
    deaths := fun hi => absurd (hw.symm.trans hi.2) (by simp)
    settled := fun hs => absurd (hw.symm.trans hs) (by simp)
    lagging := fun hs => absurd (hw.symm.trans hs) (by simp)
    sheltered := fun _ _ hg => by cases hg
    doomed := fun _ hg => by cases hg }

/-- The collector may enter a phase at any time. -/
theorem Invariant.enterPhase (inv : Invariant law w h) (hparting : w.parting = []) (phase : Phase) :
    Invariant law { w with phase } { h with phase } :=
  { inv with
    phase := fun _ => rfl
    deaths := fun hw => by
      have hdeaths := inv.deaths hw
      show Deaths _ _ _ _ _ _ w.parting _
      rw [hparting] at hdeaths ⊢
      exact hdeaths.enterPhase }

/-- When the live list has been emptied, the reachable list becomes the live list. -/
theorem Invariant.splice {kept : List (NodeId × Bool)}
    (inv : Invariant law { w with guard := some .full, kept := some kept } h)
    (hkept : w.kept = none) (hlive : h.rings.toList liveList = []) :
    Invariant law { w with guard := some .plain }
      (h.modifyRings (·.spliceBack liveList reachableList)) := by
  have hlists : liveList < h.rings.sentinels.size ∧ reachableList < h.rings.sentinels.size := by
    rw [inv.size_sentinels]
    decide
  have hlist := inv.rings.toList_spliceBack hlists.1 hlists.2 (by decide)
  have hreach : (h.rings.spliceBack liveList reachableList).toList reachableList = [] := by
    rw [hlist, if_pos rfl]
  have hnew : (h.rings.spliceBack liveList reachableList).toList liveList =
      h.rings.toList reachableList := by
    rw [hlist, if_neg (by decide), if_pos rfl, hlive, List.nil_append]
  -- What is attached is on the reachable list, and is not forsaken.
  have hspared : ∀ m, h.stage m = .allocated → h.isDetached m = false →
      m ∈ w.loose ∨ Forsaken (some kept) m → m ∈ w.loose := fun m hs hd hor => by
    by_contra hm
    obtain ⟨l, hl, hne⟩ := hor.resolve_left hm
    cases hl
    have hold := inv.attached m hm (Heap.isAllocated_iff.2 hs) hd
    rw [hlive, or_iff_right List.not_mem_nil] at hold
    exact hne (m, h.isDetached m) (inv.kept _ rfl ▸ List.mem_map_of_mem hold) rfl
  have hmem : ∀ l m, m ∈ (h.rings.spliceBack liveList reachableList).toList l →
      ∃ k, m ∈ h.rings.toList k := by
    intro l m hm
    rw [hlist] at hm
    split_ifs at hm
    · cases hm
    · exact (List.mem_append.1 hm).elim (fun hm => ⟨_, hm⟩) fun hm => ⟨_, hm⟩
    · exact ⟨l, hm⟩
  exact
    { inv with
      rings := inv.rings.spliceBack (by rw [inv.size_sentinels]; decide)
        (by rw [inv.size_sentinels]; decide) (by decide)
      size_sentinels := (Rings.size_sentinels_spliceBack _ _ _).trans inv.size_sentinels
      size_nodes := (Rings.size_nodes_spliceBack _ _ _).trans inv.size_nodes
      listed := fun l m hm => by
        obtain ⟨k, hm⟩ := hmem l m hm
        exact inv.listed k m hm
      attached := fun m hm ha hd => by
        have hold := inv.attached m hm ha hd
        rw [hlive] at hold
        refine .inl ?_
        show m ∈ (h.rings.spliceBack liveList reachableList).toList liveList
        rw [hnew]
        exact hold.resolve_left List.not_mem_nil
      marked := fun _ m hm => by
        have hnil : m ∈ (h.rings.spliceBack liveList reachableList).toList reachableList := hm
        rw [hreach] at hnil
        cases hnil
      settled := fun hs _ => ⟨hreach, fun m hm => by
        have hold : m ∈ (h.rings.spliceBack liveList reachableList).toList liveList := hm
        rw [hnew] at hold
        exact inv.marked hs m hold⟩
      lagging := fun hs l hl m _ ha hout => by
        obtain rfl : liveList = l := Option.some.inj hl
        refine inv.lagging hs reachableList rfl m id ha fun hmem => hout ?_
        show m ∈ (h.rings.spliceBack liveList reachableList).toList liveList
        rwa [hnew]
      kept := fun l hl => absurd (hkept.symm.trans hl) (by simp)
      sheltered := fun _ _ hw => by cases hw
      doomed := fun _ hw => by cases hw
      current := fun hw => (inv.current hw).mono (fun _ hs => hs)
        (fun m _ hs hd => ⟨hs, hd, fun hor => .inl (hspared m hs hd hor)⟩)
        fun _ _ m _ hcur => ⟨hcur.1, hkept ▸ not_forsaken_none m⟩
      deaths := fun hw => (inv.deaths hw).change fun m hm => by
        right
        cases hm with
        | loose hm => exact .loose hm
        | dropping hm => exact .dropping hm
        | listed _ hm => exact absurd hm (hlive ▸ List.not_mem_nil) }

/-- The manager begins a full collection. From now on no other may return. -/
theorem Invariant.engage (inv : Invariant law w h) :
    Invariant law { w with collecting := true, collected := some h.chronicle.collections }
      { h with collecting := true } :=
  { inv with
    collecting := rfl
    collected := fun _ hl => Option.some.inj hl }

/-- The manager ends a full collection. -/
theorem Invariant.disengage {collected : Option (List CollectionResult)}
    (hw : w.collecting = false) (inv : Invariant law { w with collecting := true, collected } h)
    (hcollected : ∀ l, w.collected = some l → h.chronicle.collections = l) :
    Invariant law w { h with collecting := false } :=
  { inv with
    collecting := hw.symm
    collected := hcollected }

/-- When a full collection returns, what it has done is added to the totals. -/
theorem Invariant.register {collected : Option (List CollectionResult)}
    (inv : Invariant law { w with collected } h) (r : CollectionResult) (last bytes : Nat) :
    Invariant law { w with collected := none } ((h.modifyStats fun s =>
      { s with
        fullCollections := s.fullCollections + 1
        lastMarked := last
        totalMarked := s.totalMarked + r.marked
        totalDetached := s.totalDetached + r.detached
        bytesAfterLastCollection := bytes }).modifyChronicle (·.collect r)) :=
  { inv with
    ledger := fun hw => { inv.ledger hw with }
    accounts := fun hw =>
      have hacc := inv.accounts hw
      { hacc with
        marked := (congrArg (· + r.marked) hacc.marked).trans (Nat.add_comm _ _)
        detached := (congrArg (· + r.detached) hacc.detached).trans (Nat.add_comm _ _) }
    collected := fun l hl => by cases hl }

/-- A finalizer that is started is taken off the queue. -/
theorem Invariant.takeUp {f : Finalizer} (inv : Invariant law w h)
    (hf : h.pending.head? = some f) : Invariant law w (h.takeUp f) :=
  { inv with
    ledger := fun hw => by
      have hl := inv.ledger hw
      rw [List.eq_cons_of_mem_head? hf] at hl
      exact hl.start
    past := inv.past.start _ }

namespace Collector

open Marking

variable {run : Runner}

@[simp] theorem leads_markReachable {Q : Nat × List Nat → Heap → Prop}
    {E : Failure → Heap → Prop} :
    Leads markReachable h Q E ↔ Q ((Marking.run h).1.count, (Marking.run h).2)
      (Marking.run h).1.heap := by
  unfold Leads markReachable
  generalize Marking.run h = r
  rfl

/-- When marking is over, the weak entries whose key stayed unmarked may expire: such a key is not
on the reachable list. The key of any other entry is, unless it was detached before. -/
theorem Marking.Explored.expires {Q : NodeId → Prop} {m : Marking} {dead : List Nat}
    (he : Explored law w h.flip Q m) (hc : Marking.Closed h m dead)
    (inv : Invariant law { w with guard := some .full } h) (hidle : w.Idle) (hw : w.Intact)
    (hphase : w.phase = .marking) (hsettled : h.Settled) :
    m.heap.Expires { w with guard := some .full } (fun slot _ => dead.contains slot)
      (some m.heap.keeps) where
  parting := hidle.parting
  started := hidle.started
  lost := Invariant.queuedLost (w := w) he.inv hw hidle
  alike := .inl ((he.inv.phase hw.1).trans hphase)
  dead := fun slot e key hslot hdead hkey _ _ => by
    have hmem : slot ∈ dead := by simpa using hdead
    obtain ⟨e', key', hslot', hkey', hmark⟩ := (hc.dead slot).1 hmem
    rw [he.frame.roots] at hslot
    cases hslot.symm.trans hslot'
    cases hkey.symm.trans hkey'
    refine .inr ⟨_, rfl, fun x hx hxk => ?_⟩
    obtain ⟨k, hk, rfl⟩ := List.mem_map.1 hx
    obtain rfl : k = key := hxk
    unfold isMarked Heap.readsMarked at hmark
    rw [he.inv.marked hw.2 k hk, beq_self_eq_true] at hmark
    cases hmark
  forsaken := fun n hf => absurd (hidle.kept ▸ hf) (not_forsaken_none n)
  spared := fun slot e key hslot hdead hkey hdetached _ => by
    rintro ⟨_, hl, hne⟩
    cases hl
    rw [he.frame.roots] at hslot
    rw [he.frame.isDetached] at hdetached
    have hmarked : m.isMarked key = true := by
      by_contra hmark
      have hmem := (hc.dead slot).2 ⟨e, key, hslot, hkey, Bool.eq_false_of_not_eq_true hmark⟩
      rw [List.contains_iff_mem.2 hmem] at hdead
      cases hdead
    -- An attached key was on the live list, where nothing looked marked after the flip.
    have halloc := (inv.weakKeys e (SlotTable.mem_toList.2 ⟨slot, hslot⟩) key hkey).1
    have hlive := inv.attached key (by simp [hidle.loose]) halloc hdetached
    rw [hsettled.1, or_iff_left List.not_mem_nil] at hlive
    have hstart : (start h.flip).isMarked key = false := by
      show ((h.status key).contains .mark == !h.cycle) = false
      rw [hsettled.2 key hlive]
      cases h.cycle <;> rfl
    have hfound := (he.marked hmarked).resolve_right (by simp [hstart])
    exact hne (key, _) (List.mem_map_of_mem ((he.listed key).2 (.inr hfound))) rfl

/-- Marking explores the scope, then expires the weak entries whose key is not marked. The full
collection keeps what is on the reachable list then. -/
theorem mark_spec {Q : NodeId → Prop} (inv : Invariant law { w with guard := some .full } h)
    (hidle : w.Idle) (hphase : w.phase = .marking) (hsettled : w.scarred = false → h.Settled)
    (hturns : w.scarred = false → h.Turns) (hq : Scope h.flip Q) :
    Returns mark h fun count h' => ∃ m dead, (m, dead) = Marking.run h ∧
      Explored law w h.flip Q m ∧ Marking.Closed h m dead ∧ count = m.count ∧
      Invariant law { w with guard := some .full, kept := some h'.keeps } h' ∧
      Lowered (m.heap.expire fun slot _ => dead.contains slot) h' := by
  have hrun := run_spec inv hidle.kept (fun hs => (hsettled hs).1) hturns hq
  unfold mark
  simp only [Returns, leads_bind, leads_markReachable]
  -- How marking runs is settled, and need not be looked at again.
  generalize Marking.run h = found at hrun ⊢
  obtain ⟨he, hc⟩ := hrun
  refine (expireEntries_spec he.inv (fun l hl => Option.some.inj hl)
    (fun _ => he.lags) fun hw => he.expires hc inv hidle hw hphase (hsettled hw.2)).leads ?_
  rintro _ h' ⟨inv', hl⟩
  refine ⟨found.1, found.2, rfl, he, hc, rfl, ?_, hl⟩
  rw [inv'.kept _ rfl]
  exact inv'

/-- Sweeping the live list keeps the invariant and leaves the list empty. What has been found
reachable is not touched meanwhile. -/
theorem sweepLive_spec (hrun : run.Keeps law w.torn w.scarred) (fuel detached : Nat)
    {kept : List (NodeId × Bool)} (hidle : w.Idle) (hphase : w.phase = .sweeping)
    (inv : Invariant law { w with guard := some .full, kept := some kept } h) :
    Leads (sweepLive run fuel detached) h
      (fun _ h' => Invariant law { w with guard := some .full, kept := some kept } h' ∧
        h'.rings.toList liveList = [])
      (Failed (fun h' => w.Unwinds ∧
        Invariant law { w with guard := some .full, kept := some kept } h') w.torn) := by
  -- Each step takes the node in front off the live list, so the invariant alone carries the loop.
  induction fuel generalizing h detached with
  | zero => exact leads_throw.2 .exhausted
  | succ fuel ih =>
    have hfront := inv.rings.front?_eq (l := liveList) (by rw [inv.size_sentinels]; decide)
    unfold sweepLive
    simp only [leads_bind, leads_view, hfront]
    cases hlive : h.rings.toList liveList with
    | nil => exact ⟨inv, hlive⟩
    | cons n rest =>
      have hmem : n ∈ h.rings.toList liveList := by
        rw [hlive]
        exact List.mem_cons_self
      have hn := inv.listed liveList n hmem
      have hlost := inv.loses_of_mem_liveList hmem
      simp only [List.head?_cons, leads_bind, leads_update, leads_view]
      refine (detach_spec (w := { w with guard := some .full, kept := some kept }) hrun
        (inv.unlink hlost (.inl rfl)) (fun _ _ hw => by cases hw) hn hlost
        (fun hs => inv.not_mem_building hn (hidle.started n hs))
        (.inr ⟨kept, rfl, hlost kept rfl⟩)
        (Juncture.ready_full _ rfl (List.cons_ne_nil _ _) hphase hidle.parting)).imp ?_
      rintro _ h₁ ⟨inv₁, hn₁, -⟩
      split
      · simp only [leads_bind]
        exact (makeMoribund_spec inv₁ hn₁ (by simp [Juncture.doomed])).leads
          fun _ _ hpost => ih _ hpost.1
      · exact ih _ inv₁

/-- A sweep ends a full collection. What was on the reachable list is on the live list then, and has
its payload if it had it before. -/
theorem sweep_spec (hrun : run.Keeps law w.torn w.scarred) (fuel : Nat) (hidle : w.Idle)
    (hphase : w.phase = .sweeping)
    (inv : Invariant law { w with guard := some .full, kept := some h.keeps } h) :
    Leads (sweep run fuel) h
      (fun _ h' => Invariant law { w with guard := some .plain } h' ∧
        h'.rings.toList liveList = h.rings.toList reachableList ∧
        h'.rings.toList reachableList = [] ∧
        ∀ n ∈ h.rings.toList reachableList, h'.isDetached n = h.isDetached n)
      (Failed (fun h' => w.Unwinds ∧ Invariant law { w with guard := some .plain } h') w.torn) := by
  unfold sweep
  simp only [leads_bind, leads_update, leads_pure]
  refine (sweepLive_spec hrun fuel 0 hidle hphase inv).mono ?_
    fun _ _ he => he.mono fun hcut => ⟨hcut.1, hcut.2.interrupt hidle.kept hcut.1.2⟩
  rintro _ h₁ ⟨inv₁, hlive⟩
  obtain ⟨hlist, hdetached⟩ := Heap.keeps_eq_iff.1 (inv₁.kept _ rfl)
  have hlists : liveList < h₁.rings.sentinels.size ∧ reachableList < h₁.rings.sentinels.size := by
    rw [inv₁.size_sentinels]
    decide
  have hnew := inv₁.rings.toList_spliceBack hlists.1 hlists.2 (by decide)
  have hnewLive := hnew liveList
  have hnewReachable := hnew reachableList
  rw [if_neg (by decide), if_pos rfl, hlive, List.nil_append] at hnewLive
  rw [if_pos rfl] at hnewReachable
  exact ⟨inv₁.splice hidle.kept hlive, hnewLive.trans hlist, hnewReachable, hdetached⟩

/-- Marking, sweeping and the lite sweep after that keep the invariant and leave the collector idle,
and need that no guard is held. In a heap that is not torn every failure of them is final. Of lite
sweeps only the one at the end adds to what has been returned. -/
theorem markSweep_spec (hrun : run.Keeps law w.torn w.scarred) (fuel : Nat)
    (hready : w.guard = none → w.Idle) (hswept : w.guard = none → w.swept = none)
    (inv : Invariant law w h) :
    Leads (markSweep run fuel) h
      (fun r h' => w.guard = none ∧ Invariant law { w with phase := .idle } h' ∧
        h'.chronicle.sweeps.sum = r.reclaimed + h.chronicle.sweeps.sum)
      (Failed (fun h' => w.torn = true ∧ Invariant law w h') w.torn) := by
  unfold markSweep
  simp only [leads_bind, leads_view]
  cases hi : h.isInhibited with
  | true =>
    simp only [if_true]
    exact leads_fatal_failed rfl fun htorn => ⟨htorn, { inv with }⟩
  | false =>
    have hguard := guard_eq_none inv hi
    have hidle := hready hguard
    have hw := Juncture.eq_unwatched hguard (hswept hguard)
    rw [hw] at inv ⊢
    -- What a failure may leave behind in a torn heap includes the phase.
    have hunswept : ∀ {k}, w.torn = true ∧
        Invariant law { w with guard := none, swept := none, phase := .sweeping } k →
        w.torn = true ∧ Invariant law { w with guard := none, swept := none } k := fun hcut =>
      ⟨hcut.1, { hcut.2 with phase := fun hw => absurd (hcut.1.symm.trans hw) (by simp) }⟩
    simp only [Bool.false_eq_true, if_false, leads_bind]
    refine Leads.mono (inhibiting_spec (w := { w with swept := none, phase := .sweeping })
      (Q := fun (_ : Nat × Nat) c => c.sweeps = h.chronicle.sweeps) ?_) (fun x h₁ hpost => ?_)
      fun _ _ he => he.mono hunswept
    · -- Lite sweeps are held off as long as the guard is there, and return none.
      have hplain : Invariant law
          { w with guard := some .plain, swept := some h.chronicle.sweeps }
          { h with inhibitors := h.inhibitors + 1 } :=
        (Invariant.inhibit (w := { w with swept := none }) inv).watch
      have hfull : Invariant law { w with guard := some .full, swept := some h.chronicle.sweeps }
          { h with inhibitors := h.inhibitors + 1 } :=
        Invariant.beginFull (w := { w with swept := some h.chronicle.sweeps }) hplain hidle.kept
      simp only [leads_bind, enterPhase, leads_update]
      have hmarking : Invariant law
          { w with guard := some .full, swept := some h.chronicle.sweeps, phase := .marking }
          { h with inhibitors := h.inhibitors + 1, phase := .marking } :=
        hfull.enterPhase hidle.parting .marking
      refine (mark_spec (w := { w with swept := some h.chronicle.sweeps, phase := .marking })
        hmarking { hidle with } rfl (fun hs => inv.settled hs (by simp))
        (fun hs => inv.turns hs rfl) (scope_isAllocated hmarking)).leads ?_
      rintro count h₂ ⟨-, -, -, -, -, -, inv₂, -⟩
      exact (sweep_spec (w := { w with swept := some h.chronicle.sweeps, phase := .sweeping }) hrun
        fuel { hidle with } rfl (inv₂.enterPhase hidle.parting .sweeping)).mono
        (fun _ h₃ hpost => ⟨hpost.1.unwatch rfl, hpost.1.swept _ rfl⟩)
        fun _ _ he => he.mono fun hcut => ⟨hcut.1.1, hcut.2.unwatch rfl⟩
    · refine (liteSweep_spec (w := { w with guard := none, swept := none, phase := .sweeping }) hrun
        fuel (fun _ => { hidle with }) (fun _ => rfl) hpost.1).mono (fun _ h₂ hlite => ?_)
        fun _ _ he => he.mono hunswept
      simp only [enterPhase, leads_update, leads_pure]
      have hsum : h₂.chronicle.sweeps.sum = _ + h.chronicle.sweeps.sum := hpost.2 ▸ hlite.2
      exact ⟨trivial, hlite.1.enterPhase hidle.parting .idle, hsum⟩

/-- Retuning the trigger changes nothing else, and fails only if the trigger does not fit in a
word. -/
theorem retune_spec (inv : Invariant law w h) :
    Leads retune h (fun _ => Invariant law w) (Failed (Invariant law w) w.torn) := by
  unfold retune setTrigger
  simp only [leads_bind, leads_view]
  split
  · simp only [leads_bind, leads_view]
    split
    · exact { inv with floor := Nat.le_max_right _ _ }
    · exact leads_throw.2 (.of_not_isFinal rfl inv)
  · simp only [leads_bind, leads_view]
    split
    · exact { inv with floor := Nat.le_max_right _ _ }
    · exact inv

/-- A full collection keeps the invariant. What has been returned grows by what it returns. -/
theorem collect_spec (hrun : run.Keeps law w.torn w.scarred) (fuel : Nat) (hopen : w.Open)
    (inv : Invariant law w h) :
    Leads (collect run fuel) h
      (fun r h' => Invariant law w h' ∧ h.chronicle.Gains r h'.chronicle)
      (Failed (Invariant law w) w.torn) := by
  unfold collect
  simp only [leads_bind, leads_view]
  split
  · exact ⟨inv, h.chronicle.gains_zero⟩
  · simp only [leads_bind, leads_update]
    rename_i hidle
    rw [Bool.not_eq_true, inv.collecting] at hidle
    refine Leads.ensuring (Q := fun r h' => w.guard = none ∧
        Invariant law { w with collecting := true, collected := none } h' ∧
          h.chronicle.Gains r h'.chronicle)
      (R := Invariant law
        { w with collecting := true, collected := some h.chronicle.collections }) ?_
      (fun _ h' hpost => ⟨hpost.2.1.disengage hidle (hopen.unrecorded hpost.1 _), hpost.2.2⟩)
      fun h' inv' => inv'.disengage hidle fun l hl =>
        (inv'.collected _ rfl).trans (inv.collected l hl)
    simp only [leads_bind, leads_view]
    refine (markSweep_spec (w :=
        { w with collecting := true, collected := some h.chronicle.collections }) hrun fuel
      (fun hnone => { hopen.idle hnone with }) hopen.swept inv.engage).mono ?_
      fun _ _ he => he.mono And.right
    rintro result h₁ ⟨hnone, inv₁, hsum⟩
    rw [← hopen.calm hnone hidle] at inv₁
    have hswept := hopen.swept hnone
    have hunwatch : ∀ {k}, Invariant law
        { w with
          collecting := true, collected := some h.chronicle.collections,
          swept := some h₁.chronicle.sweeps } k →
        Invariant law { w with collecting := true, collected := some h.chronicle.collections } k :=
      Invariant.unwatch
        (w := { w with collecting := true, collected := some h.chronicle.collections }) hswept
    refine (retune_spec inv₁.watch).mono (fun _ h₂ inv₂ => ?_) fun _ _ he => he.mono hunwatch
    -- Full collections asked for meanwhile have returned at once and are not on record.
    have hsweeps := inv₂.swept _ rfl
    have hcollections := inv₂.collected _ rfl
    have inv₃ := Invariant.register (w := { w with collecting := true }) (hunwatch inv₂) result
      result.marked h₂.bytes
    have hgains : h.chronicle.Gains result (h₂.chronicle.collect result) :=
      { reclaimed := hsweeps ▸ hsum
        marked :=
          congrArg (fun l => result.marked + (l.map CollectionResult.marked).sum) hcollections
        detached :=
          congrArg (fun l => result.detached + (l.map CollectionResult.detached).sum) hcollections
        collections := .inr (congrArg (result :: ·) hcollections) }
    simp only [record, report, leads_update]
    split
    · exact ⟨hnone, { inv₃ with }, hgains⟩
    · exact ⟨hnone, { inv₃ with }, hgains⟩

/-- Running finalizers keeps the invariant. -/
theorem runFinalizers_spec (hrun : run.Keeps law w.torn w.scarred) (fuel ran : Nat)
    (hready : w.Ready) (inv : Invariant law w h) :
    Leads (runFinalizers run fuel ran) h (fun _ => Invariant law w)
      (Failed (Invariant law w) w.torn) := by
  induction fuel generalizing h ran with
  | zero => exact leads_throw.2 .exhausted
  | succ fuel ih =>
    unfold runFinalizers
    simp only [leads_bind, leads_view]
    cases hf : h.pending.head? with
    | none => exact inv
    | some f =>
      simp only [leads_bind, leads_update]
      exact (hrun w f.program _ rfl rfl hready (inv.takeUp hf)).mono
        (fun answers h₁ inv₁ => ih _ { inv₁ with }) fun _ _ he => he.mono fun hcut => hcut.2

/-- A lite sweep with the finalizers after it keeps the invariant. -/
theorem runLiteSweep_spec (hrun : run.Keeps law w.torn w.scarred) (fuel : Nat) (hready : w.Ready)
    (inv : Invariant law w h) :
    Leads (runLiteSweep run fuel) h (fun _ => Invariant law w)
      (Failed (Invariant law w) w.torn) := by
  unfold runLiteSweep runPendingFinalizers
  simp only [leads_bind, leads_discard, leads_pure]
  refine (liteSweep_spec hrun fuel hready.idle hready.swept inv).mono (fun _ h₁ hpost => ?_)
    fun _ _ he => he.mono And.right
  exact runFinalizers_spec hrun fuel 0 hready hpost.1

/-- A full collection with the finalizers after it keeps the invariant. -/
theorem forceFullCollection_spec (hrun : run.Keeps law w.torn w.scarred) (fuel : Nat)
    (hready : w.Ready) (inv : Invariant law w h) :
    Leads (forceFullCollection run fuel) h (fun _ => Invariant law w)
      (Failed (Invariant law w) w.torn) := by
  unfold forceFullCollection runPendingFinalizers
  simp only [leads_bind, leads_discard, leads_pure]
  refine (collect_spec hrun fuel hready.toOpen inv).imp fun _ h₁ hpost => ?_
  exact runFinalizers_spec hrun fuel 0 hready hpost.1

end Collector

end HybridHeap
