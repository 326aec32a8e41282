import HybridHeap.Proofs.HoldingOff
import HybridHeap.Proofs.Leaving
import HybridHeap.Proofs.Mirroring
import HybridHeap.Proofs.Sparing

/-!
# The policy of the trigger

The trigger is set when a heap is made, when the mutator asks for it, and whenever a full collection
is concluded: an adaptive trigger to the live bytes and the headroom above them, a fixed one to
twice the live bytes once they have reached it. Each time it is cut off below at its minimum. So it
never sinks below that, and no collection leaves a heap above its trigger. An allocation that finds
no guard therefore asks for its block in a heap that is not above its trigger, and not more than one
full collection has been run for it.

Doubling cuts off at the largest word, but the headroom is added as it is. Where the sum does not
fit in a word the collection does its work and then fails, and that is the only way in which
retuning can go wrong.
-/

namespace HybridHeap

open Collector Act

-- Unification would run marking where it only has to name it.
attribute [local irreducible] Collector.mark

variable {law : Law} {w : Juncture} {h k : Heap} {run : Runner} {fuel : Nat}

/-! ## The trigger after a collection -/

namespace Heap

/-- The trigger that a heap is given when a full collection of it is concluded, if a word can hold
it. -/
def retunedTrigger (h : Heap) : Nat :=
  if h.config.adaptive then
    h.bytes + max (h.headroom h.stats.fullCollections) h.config.minTrigger
  else if h.trigger ≤ h.bytes then max (Word.doubleSaturating h.bytes) h.config.minTrigger
  else h.trigger

/-- A heap is not above the trigger that it is given. -/
theorem bytes_le_retunedTrigger (hword : h.bytes ≤ Word.largest) : h.bytes ≤ h.retunedTrigger := by
  unfold retunedTrigger
  split_ifs with hadaptive hreached
  · exact Nat.le_add_right _ _
  · -- Twice the bytes may be cut off, but not below the bytes, for these are a word themselves.
    have hdouble : h.bytes ≤ Word.doubleSaturating h.bytes := by
      unfold Word.doubleSaturating
      omega
    calc h.bytes ≤ Word.doubleSaturating h.bytes := hdouble
      _ ≤ max (Word.doubleSaturating h.bytes) h.config.minTrigger := Nat.le_max_left _ _
  · omega

instance (h : Heap) : Decidable h.Strained :=
  inferInstanceAs (Decidable (h.config.adaptive = true ∧
    Word.largest < h.bytes + max (h.headroom h.stats.fullCollections) h.config.minTrigger))

/-- The trigger that a heap is given is a word, unless it is strained. -/
theorem retunedTrigger_le_largest (hfits : ¬h.Strained) (htrigger : h.trigger ≤ Word.largest)
    (hmin : h.config.minTrigger ≤ Word.largest) : h.retunedTrigger ≤ Word.largest := by
  unfold retunedTrigger
  split_ifs with hadaptive hreached
  · have hsum := not_and.1 hfits hadaptive
    omega
  · have hdouble : Word.doubleSaturating h.bytes ≤ Word.largest := Nat.min_le_right _ _
    exact Nat.max_le.2 ⟨hdouble, hmin⟩
  · exact htrigger

/-- The heap in which a full collection is concluded: retuned, and with the result on record. -/
def concluded (h : Heap) (result : CollectionResult) (events : List Event) : Heap :=
  { h with
    trigger := h.retunedTrigger
    events
    stats := { h.stats with
      fullCollections := h.stats.fullCollections + 1
      lastMarked := result.marked
      totalMarked := h.stats.totalMarked + result.marked
      totalDetached := h.stats.totalDetached + result.detached
      bytesAfterLastCollection := h.bytes }
    chronicle := h.chronicle.collect result
    collecting := false }

end Heap

namespace Collector

/-- Retuning sets the trigger, or fails and changes nothing in a heap that is strained. -/
theorem retune_sets : Leads retune h
    (fun _ k => ¬h.Strained ∧ ∃ events, k = { h with trigger := h.retunedTrigger, events })
    fun e k => e = .overflow ∧ k = h ∧ h.Strained := by
  unfold retune setTrigger
  simp only [leads_bind, leads_view]
  split
  case isTrue hadaptive =>
    simp only [leads_bind, leads_view]
    by_cases hfits : h.bytes + max (h.headroom h.stats.fullCollections) h.config.minTrigger ≤
        Word.largest
    · have hended : (Balancer.new h.config.minTrigger).ended?
          (h.headroom h.stats.fullCollections) h.bytes =
            some ⟨h.config.minTrigger, h.retunedTrigger⟩ := by
        simp [Balancer.ended?, Balancer.new, Word.fit?, Heap.retunedTrigger, hfits, hadaptive]
      -- The limit is above the minimum already, so that setting it does not cut it off.
      have hfloor : max h.retunedTrigger h.config.minTrigger = h.retunedTrigger := by
        unfold Heap.retunedTrigger
        rw [if_pos hadaptive]
        omega
      rw [hended]
      simp only [leads_update, hfloor]
      exact ⟨fun hstrained => Nat.not_lt.2 hfits hstrained.2, h.events, rfl⟩
    · have hended : (Balancer.new h.config.minTrigger).ended?
          (h.headroom h.stats.fullCollections) h.bytes = none := by
        simp [Balancer.ended?, Balancer.new, Word.fit?, hfits]
      rw [hended]
      exact ⟨rfl, rfl, hadaptive, Nat.not_le.1 hfits⟩
  case isFalse hfixed =>
    have hcalm : ¬h.Strained := fun hstrained => hfixed hstrained.1
    have hset : h.retunedTrigger = if h.trigger ≤ h.bytes then
        max (Word.doubleSaturating h.bytes) h.config.minTrigger else h.trigger := if_neg hfixed
    simp only [leads_bind, leads_view, decide_eq_true_eq]
    split
    case isTrue hreached =>
      rw [hset, if_pos hreached]
      exact ⟨hcalm, _, rfl⟩
    case isFalse hbelow =>
      rw [hset, if_neg hbelow]
      exact ⟨hcalm, h.events, rfl⟩

/-- What comes of a full collection depends on what its marking and sweeping come to. If they fail
so does the collection. Otherwise it is concluded, unless the heap is strained by then. -/
theorem collect_comes_to (hidle : h.collecting = false) : Leads (collect run fuel) h
    (fun result k' => ∃ k events, markSweep run fuel { h with collecting := true } = .ok result k ∧
      ¬k.Strained ∧ k' = k.concluded result events)
    fun e k' => ∃ k, k' = { k with collecting := false } ∧
      (markSweep run fuel { h with collecting := true } = .error e k ∨
        e = .overflow ∧ k.Strained ∧
          ∃ result, markSweep run fuel { h with collecting := true } = .ok result k) := by
  unfold collect
  simp only [leads_bind, leads_view, leads_update, leads_ensuring, hidle, Bool.false_eq_true,
    if_false]
  refine (leads_self _ _).mono ?_ fun e k hsweep => ⟨k, rfl, .inl hsweep⟩
  intro result k hsweep
  refine retune_sets.mono ?_ ?_
  · rintro _ _ ⟨hfits, events, rfl⟩
    simp only [record, report, leads_update]
    -- A report is an event, and changes nothing else.
    split
    · exact ⟨k, _, hsweep, hfits, rfl⟩
    · exact ⟨k, events, hsweep, hfits, rfl⟩
  · rintro e _ ⟨rfl, rfl, hstrained⟩
    exact ⟨_, rfl, .inr ⟨rfl, hstrained, result, hsweep⟩⟩

/-- A full collection fails if its marking and sweeping do. -/
theorem collect_of_error {e : Failure} (hidle : h.collecting = false)
    (hsweep : markSweep run fuel { h with collecting := true } = .error e k) :
    collect run fuel h = .error e { k with collecting := false } := by
  have hcomes : Leads (collect run fuel) h _ _ := collect_comes_to hidle
  cases hcollect : collect run fuel h with
  | ok result k' =>
    obtain ⟨k₀, events, hsweep', -⟩ := hcomes.of_ok hcollect
    cases hsweep.symm.trans hsweep'
  | error e' k' =>
    obtain ⟨k₀, rfl, hsweep' | ⟨-, -, result, hsweep'⟩⟩ := hcomes.of_error hcollect
    · cases hsweep.symm.trans hsweep'
      rfl
    · cases hsweep.symm.trans hsweep'

/-- If they return it fails just where the heap is strained. -/
theorem collect_of_ok {result : CollectionResult} (hidle : h.collecting = false)
    (hsweep : markSweep run fuel { h with collecting := true } = .ok result k) :
    ∃ events, collect run fuel h =
      if k.Strained then .error .overflow { k with collecting := false }
      else .ok result (k.concluded result events) := by
  have hcomes : Leads (collect run fuel) h _ _ := collect_comes_to hidle
  cases hcollect : collect run fuel h with
  | ok result' k' =>
    obtain ⟨k₀, events, hsweep', hfits, rfl⟩ := hcomes.of_ok hcollect
    cases hsweep.symm.trans hsweep'
    exact ⟨events, (if_neg hfits).symm⟩
  | error e' k' =>
    obtain ⟨k₀, rfl, hsweep' | ⟨rfl, hstrained, result', hsweep'⟩⟩ := hcomes.of_error hcollect
    · cases hsweep.symm.trans hsweep'
    · cases hsweep.symm.trans hsweep'
      exact ⟨[], (if_pos hstrained).symm⟩

/-- No full collection leaves a heap above its trigger. -/
theorem bytes_le_trigger_of_collect {result : CollectionResult} (hidle : h.collecting = false)
    (hcollect : collect run fuel h = .ok result k) (hword : k.bytes ≤ Word.largest) :
    k.bytes ≤ k.trigger := by
  obtain ⟨k₀, events, -, -, rfl⟩ := (collect_comes_to hidle).of_ok hcollect
  exact k₀.bytes_le_retunedTrigger hword

/-! ## The collections before an allocation -/

/-- Where a collection may be asked for, a lite sweep puts no full collection on record, for those
that its destructors ask for are held off. -/
theorem liteSweep_collections (hrun : run.Keeps law w.torn w.scarred) (hopen : w.Open)
    (hguard : w.guard = none) (inv : Invariant law w h) :
    Leads (liteSweep run fuel) h (fun _ k => Invariant law w k ∧
      k.chronicle.collections = h.chronicle.collections) fun _ _ => True := by
  -- The juncture says what is on record by now, and that nothing may be added to it.
  have inv' : Invariant law { w with collected := some h.chronicle.collections } h :=
    { inv with collected := fun _ hl => Option.some.inj hl }
  refine (liteSweep_spec (w := { w with collected := some h.chronicle.collections }) hrun fuel
    (fun hnone => { hopen.idle hnone with }) hopen.swept inv').mono ?_ fun _ _ _ => trivial
  rintro _ k ⟨invk, -⟩
  exact ⟨{ invk with collected := hopen.unrecorded hguard _ }, invk.collected _ rfl⟩

/-- The heap is not above its trigger if full collections may begin by themselves, and at most one
has come on record since. -/
structure Relieved (h k : Heap) : Prop where
  below : k.enabled = true → k.bytes ≤ Word.largest → k.bytes ≤ k.trigger
  once : k.chronicle.collections = h.chronicle.collections ∨
    ∃ result, k.chronicle.collections = result :: h.chronicle.collections

/-- The full collection that may be due before an allocation relieves the heap. -/
theorem fullIfDue_relieves (hrun : run.Keeps law w.torn w.scarred) (hopen : w.Open)
    (hguard : w.guard = none) (inv : Invariant law w h) :
    Leads (do if ← Act.view fullDue then discard <| collect run fuel) h
      (fun _ k => Invariant law w k ∧ Relieved h k) fun _ _ => True := by
  simp only [leads_bind, leads_view]
  cases hdue : fullDue h with
  | false =>
    refine ⟨inv, fun henabled _ => ?_, .inl rfl⟩
    have hbelow : ¬h.trigger < h.bytes := by
      simpa [fullDue, henabled] using hdue
    omega
  | true =>
    -- No guard is held, so that no full collection is under way in which this one would be empty.
    have hidle : h.collecting = false := by
      rw [inv.collecting]
      exact hopen.alone hguard
    have hself : Leads (collect run fuel) h (fun result k => collect run fuel h = .ok result k)
        fun _ _ => True := (leads_self _ _).mono (fun _ _ hc => hc) fun _ _ _ => trivial
    simp only [if_true, leads_discard]
    refine ((collect_spec hrun fuel hopen inv).and hself).mono ?_ fun _ _ _ => trivial
    rintro result k ⟨⟨invk, hgains⟩, hcollect⟩
    exact ⟨invk, fun _ => bytes_le_trigger_of_collect hidle hcollect,
      hgains.collections.imp_right fun hone => ⟨result, hone⟩⟩

/-- So do the collections that are due before an allocation that finds no guard. -/
theorem collectIfDue_relieves (hrun : run.Keeps law w.torn w.scarred) (hopen : w.Open)
    (inv : Invariant law w h) (hi : h.isInhibited = false) :
    Leads (collectIfDue run fuel) h (fun _ k => Invariant law w k ∧ Relieved h k)
      fun _ _ => True := by
  have hguard := guard_eq_none inv hi
  unfold collectIfDue
  simp only [leads_bind, leads_view, hi, Bool.not_false, if_true]
  split
  · simp only [leads_bind, leads_discard]
    refine (liteSweep_collections hrun hopen hguard inv).imp ?_
    rintro _ h₁ ⟨inv₁, hsame⟩
    have hfull : Leads (do if ← Act.view fullDue then discard <| collect run fuel) h₁ _ _ :=
      fullIfDue_relieves hrun hopen hguard inv₁
    simp only [leads_bind, leads_view] at hfull
    -- The sweep has put nothing on record, so that only the full collection after it may have.
    refine hfull.imp fun _ k hpost => ⟨hpost.1, hpost.2.below, ?_⟩
    rw [← hsame]
    exact hpost.2.once
  · have hfull : Leads (do if ← Act.view fullDue then discard <| collect run fuel) h _ _ :=
      fullIfDue_relieves hrun hopen hguard inv
    simp only [leads_bind, leads_view] at hfull
    exact hfull

/-- A node that is placed was given a block once the collections that were due had returned. -/
theorem admitted_of_place {n : NodeId} (hplace : place run fuel n h = .ok () k) :
    ∃ h', collectIfDue run fuel h = .ok () h' ∧
      (h'.memory.admit? (h'.kind n).size).isSome = true := by
  obtain ⟨_, h', hdue, -⟩ := bind_eq_ok.1 hplace
  refine ⟨h', hdue, ?_⟩
  rw [place_of_collected hdue] at hplace
  split at hplace
  · cases hplace
  · cases hbase : h'.memory.admit? (h'.kind n).size with
    | none =>
      rw [hbase] at hplace
      cases hplace
    | some base => rfl

/-- So was one that is allocated. -/
theorem admitted_of_allocate {kind : Kind} {payload : Payload} {n : NodeId}
    (hallocate : allocate run fuel kind payload h = .ok n k) :
    ∃ h', collectIfDue run fuel (h.build kind payload) = .ok () h' ∧
      (h'.memory.admit? (h'.kind n).size).isSome = true := by
  unfold allocate at hallocate
  obtain ⟨_, _, hreserve, hallocate⟩ := bind_eq_ok.1 hallocate
  cases hreserve
  obtain ⟨_, _, hplace, hreturn⟩ := bind_eq_ok.1 hallocate
  cases hreturn
  exact admitted_of_place (onFailure_eq_ok.1 hplace)

end Collector

namespace Mutator

/-! ## Allocations -/

/-- What an allocation does before it asks the allocator for a block: it counts the edges to the
kids, builds the payload and runs the collections that are due. -/
def ask (run : Runner) (fuel : Nat) (form : AllocForm) (kind : Kind) (kids : List NodeId)
    (hook : Option Program) : Act Unit := do
  requireForm form
  requireKids kind kids
  if kind = .overaligned && hook.isSome then refuse
  kids.forM (countEdge kind)
  discard <| reserve kind (payloadFor kind kids hook)
  collectIfDue run fuel

/-- An allocation that returns has asked for a block, and was given one. -/
theorem ask_of_allocate {form : AllocForm} {kind : Kind} {kids : List NodeId}
    {hook : Option Program} {n : NodeId}
    (hallocate : allocate run fuel form kind kids hook h = .ok n k) :
    ∃ h', ask run fuel form kind kids hook h = .ok () h' ∧
      (h'.memory.admit? (h'.kind n).size).isSome = true := by
  unfold allocate at hallocate
  obtain ⟨_, h₁, hform, hallocate⟩ := bind_eq_ok.1 hallocate
  obtain ⟨_, h₂, hkids, hallocate⟩ := bind_eq_ok.1 hallocate
  split at hallocate
  case isTrue =>
    obtain ⟨_, _, hrefuse, -⟩ := bind_eq_ok.1 hallocate
    cases hrefuse
  case isFalse hsuits =>
    obtain ⟨_, h₃, hcount, hallocate⟩ := bind_eq_ok.1 hallocate
    obtain ⟨_, _, hnode, hallocate⟩ := bind_eq_ok.1 hallocate
    obtain ⟨_, _, -, hreturn⟩ := bind_eq_ok.1 hallocate
    cases hreturn
    obtain ⟨h', hdue, hadmitted⟩ := admitted_of_allocate hnode
    have hreserved : (discard <| reserve kind (payloadFor kind kids hook) : Act PUnit) h₃ =
        .ok PUnit.unit (h₃.build kind (payloadFor kind kids hook)) := rfl
    refine ⟨h', bind_eq_ok.2 ⟨_, _, hform, bind_eq_ok.2 ⟨_, _, hkids, ?_⟩⟩, hadmitted⟩
    rw [if_neg hsuits]
    exact bind_eq_ok.2 ⟨_, _, hcount, bind_eq_ok.2 ⟨_, _, hreserved, hdue⟩⟩

/-- Counting edges leaves guards and what is on record. -/
theorem forM_countEdge_leaves {holder : Kind} {kids : List NodeId} (inv : Invariant law w h)
    (hkids : ∀ n ∈ kids, h.Referable w n) :
    Returns (kids.forM (countEdge holder)) h fun _ k => Invariant law (w.holding kids) k ∧
      k.inhibitors = h.inhibitors ∧ k.chronicle = h.chronicle := by
  have hgauge : Leaves Heap.gauge (kids.forM (countEdge holder)) :=
    .forM (fun n => .bind (leaves_increment uncounted_gauge n) fun _ =>
      .ite (.bind (leaves_increment uncounted_gauge n) fun _ =>
        leaves_decrement uncounted_gauge n) (.pure _)) kids
  refine (((forM_countEdge_spec inv hkids).and (forM_countEdge_tallied holder kids)).and
    (hgauge.leads h)).mono ?_ fun _ _ hf => hf.1.1
  rintro _ k ⟨⟨invk, htallied⟩, hleft⟩
  have heq := htallied.toRecounted.toRestamped.eq
  exact ⟨invk, by rw [heq], congrArg Gauge.chronicle hleft⟩

/-- An allocation that finds no guard asks for its block in a relieved heap. -/
theorem ask_relieves {form : AllocForm} {kind : Kind} {kids : List NodeId} {hook : Option Program}
    (hrun : run.Keeps law w.torn w.scarred) (hready : w.Ready) (inv : Invariant law w h)
    (hi : h.isInhibited = false) :
    Leads (ask run fuel form kind kids hook) h (fun _ k => Relieved h k ∧
      ∃ n, Invariant law { w with building := n :: w.building } k) fun _ _ => True := by
  unfold ask
  simp only [leads_bind]
  have hform : Leads (requireForm form) h (fun _ k => k = h) (Failed (Invariant law w) w.torn) :=
    requireForm_spec hready inv fun _ => rfl
  refine hform.mono (fun _ h₀ heq => ?_) fun _ _ _ => trivial
  rw [heq]
  have hkids : Leads (requireKids kind kids) h (fun _ k => k = h ∧ ∀ n ∈ kids, h.Referable w n)
      (Failed (Invariant law w) w.torn) := requireKids_spec hready inv fun hkids => ⟨rfl, hkids⟩
  refine hkids.mono ?_ fun _ _ _ => trivial
  rintro _ h₀' ⟨heq', hkids⟩
  rw [heq']
  split
  · exact leads_bind.2 (leads_throw.2 trivial)
  · simp only [leads_bind, leads_discard, leads_reserve]
    refine (forM_countEdge_leaves inv hkids).leads ?_
    rintro _ h₁ ⟨inv₁, hinhibitors, hchronicle⟩
    rw [← allEdges_payloadFor kind kids hook] at inv₁
    have inv₂ := inv₁.build kind
    have hi₂ : (h₁.build kind (payloadFor kind kids hook)).isInhibited = false := by
      rw [← hi]
      exact congrArg (· != 0) hinhibitors
    refine (collectIfDue_relieves (w := { w with building := h₁.nodes.size :: w.building }) hrun
      (hready.toOpen.build _) inv₂ hi₂).imp ?_
    rintro _ k ⟨invk, hrelieved⟩
    -- Building the payload puts nothing on record either.
    have hrecord : (h₁.build kind (payloadFor kind kids hook)).chronicle.collections =
        h.chronicle.collections := congrArg Chronicle.collections hchronicle
    exact ⟨⟨hrelieved.below, hrecord ▸ hrelieved.once⟩, _, invk⟩

/-- The trigger of a heap that a mutator comes to is not below its minimum. A full collection that
returns leaves no heap above its trigger. An allocation that returns has asked for its block, and a
heap in which one that finds no guard asks for it is not above its trigger either, if the manager is
enabled, and not more than one full collection has been run for it. All this holds whatever headroom
is earned, as long as the bytes fit in a word. -/
theorem trigger_holds (hm : Meets h) :
    h.config.minTrigger ≤ h.trigger ∧
    (∀ run fuel result k, h.collecting = false → collect run fuel h = .ok result k →
      k.bytes ≤ Word.largest → k.bytes ≤ k.trigger) ∧
    (∀ run fuel form kind kids hook n h', allocate run fuel form kind kids hook h = .ok n h' →
      ∃ k, ask run fuel form kind kids hook h = .ok () k ∧
        (k.memory.admit? (k.kind n).size).isSome = true) ∧
    ∀ cuts fuel depth form kind kids hook k, h.isInhibited = false →
      ask (runNested (.cutting cuts) fuel depth) fuel form kind kids hook h = .ok () k →
      k.config.minTrigger ≤ k.trigger ∧ Relieved h k := by
  obtain ⟨w, hready, htorn, hscarred, inv⟩ := hm.invariant
  refine ⟨inv.floor, ?_, fun _ _ _ _ _ _ _ _ => ask_of_allocate, ?_⟩
  · intro run fuel result k hidle hcollect hword
    exact bytes_le_trigger_of_collect hidle hcollect hword
  · intro cuts fuel depth form kind kids hook k hi hask
    have hkeeps : Runner.Keeps .honest w.torn w.scarred (runNested (.cutting cuts) fuel depth) := by
      rw [htorn, hscarred]
      exact runNested_keeps (Terms.keep_cutting fun _ _ => rfl) fuel depth
    obtain ⟨hrelieved, n, invk⟩ := (ask_relieves hkeeps hready inv hi).of_ok hask
    exact ⟨invk.floor, hrelieved⟩

/-- The heap to which a program leads with the given settings, if it returns. -/
def playWith (config : Settings) (program : Program) : Option Heap :=
  match program.mapM (answer .free (runNested (.cutting fun _ => false) 9 9) 9)
      (.start config none none fun _ => 0) with
  | .ok _ h => some h
  | .error _ _ => none

theorem ran_of_playWith {config : Settings} {program : Program}
    (hh : playWith config program = some h) : Ran (fun _ => false) [] h := by
  unfold playWith at hh
  split at hh
  · rename_i hrun
    cases hh
    exact (Ran.start _ _ _ _).mapM_answer hrun
  · cases hh

/-- Settings with a fixed trigger and no minimum. -/
def fixedTrigger (trigger : Nat) : Settings :=
  { Settings.standard with trigger, minTrigger := 0, adaptive := false }

/-- Before a third node is allocated, two of them are found above the trigger, which is raised. -/
theorem trigger_holds_raised : ∃ h k, Meets h ∧ h.bytes = 160 ∧ h.trigger = 100 ∧
    ask (runNested (.cutting fun _ => false) 9 9) 9 .bare .node [] none h = .ok () k ∧
    k.bytes = 160 ∧ k.trigger = 320 ∧ k.enabled = true ∧ k.bytes ≤ k.trigger ∧
    h.chronicle.collections = [] ∧ k.chronicle.collections.length = 1 ∧ Relieved h k := by
  let run := runNested (.cutting fun _ => false) 9 9
  have hplayed : ((playWith (fixedTrigger 100) [.allocate (.root "a") .node [] none,
      .allocate (.root "b") .node [] none]).any fun h => h.isInhibited = false ∧ h.bytes = 160 ∧
        h.trigger = 100 ∧ h.chronicle.collections = [] ∧
        Returns (ask run 9 .bare .node [] none) h fun _ k => k.bytes = 160 ∧ k.trigger = 320 ∧
          k.enabled = true ∧ k.chronicle.collections.length = 1) = true := by
    decide +kernel
  obtain ⟨h, hh, hfacts⟩ := (Option.any_eq_true _ _).1 hplayed
  obtain ⟨hi, hbytes, htrigger, hnone, hasks⟩ := of_decide_eq_true hfacts
  obtain ⟨_, k, hask, hbytes', htrigger', henabled, hone⟩ := returns_iff.1 hasks
  have hm : Meets h := .inr ⟨_, _, ran_of_playWith hh⟩
  obtain ⟨-, -, -, hallocations⟩ := trigger_holds hm
  obtain ⟨-, hrelieved⟩ := hallocations _ 9 9 .bare .node [] none k hi hask
  have hword : k.bytes ≤ Word.largest := by
    rw [hbytes']
    decide
  exact ⟨h, k, hm, hbytes, htrigger, hask, hbytes', htrigger', henabled,
    hrelieved.below henabled hword, hnone, hone, hrelieved⟩

/-! ## Where retuning fails -/

/-- A full collection fails if its marking and sweeping do. If they return, it is concluded with the
trigger that the settings ask for, which is a word, or it fails because the heap is strained by
then: the trigger is adaptive, and what is alive and the headroom do not fit in a word together. In
a quiet heap in which no guard is held marking and sweeping do return. -/
theorem collect_fails_iff_strained (hidle : h.collecting = false) :
    (∀ run fuel e k, markSweep run fuel { h with collecting := true } = .error e k →
      collect run fuel h = .error e { k with collecting := false }) ∧
    (∀ run fuel result k, markSweep run fuel { h with collecting := true } = .ok result k →
      (∃ events, collect run fuel h =
        if k.Strained then .error .overflow { k with collecting := false }
        else .ok result (k.concluded result events)) ∧
      (¬k.Strained → k.trigger ≤ Word.largest → k.config.minTrigger ≤ Word.largest →
        k.retunedTrigger ≤ Word.largest)) ∧
    ∀ terms bound depth fuel, Reached .tidying h → h.isInhibited = false → h.Quiet →
      2 * h.nodes.size < fuel → ∃ result k,
        markSweep (runNested terms bound (depth + 1)) fuel { h with collecting := true } =
          .ok result k := by
  refine ⟨fun _ _ _ _ => collect_of_error hidle, ?_, ?_⟩
  · intro run fuel result k hsweep
    exact ⟨collect_of_ok hidle hsweep, Heap.retunedTrigger_le_largest⟩
  · intro terms bound depth fuel hr hi hquiet hfuel
    have hwait := Juncture.ready_rest
    have hreturns := markSweep_condemns (h := { h with collecting := true })
      (w := { Juncture.rest with
        collecting := true, collected := some h.chronicle.collections })
      (runNested_idle terms bound depth) hquiet rfl (fun hnone => { hwait.idle hnone with })
      hwait.swept hwait.torn hwait.scarred hr.invariant.engage hi hfuel
    obtain ⟨result, k, hsweep, -⟩ := returns_iff.1 hreturns
    exact ⟨result, k, hsweep⟩

/-- A rooted node is collected with the standard settings, and the heap is not strained. -/
theorem collect_fails_iff_strained_rooted : ∃ h result k events, Reached .tidying h ∧
    h.nodeCount = 1 ∧ h.collecting = false ∧
    markSweep (runNested .free 9 1) 9 { h with collecting := true } = .ok result k ∧
    ¬k.Strained ∧ collect (runNested .free 9 1) 9 h = .ok result (k.concluded result events) := by
  have hplayed : ((play .tidying [.allocate (.root "r") .node [] none]).any fun h =>
      h.nodeCount = 1 ∧ h.collecting = false ∧ h.isInhibited = false ∧ h.Quiet ∧
        2 * h.nodes.size < 9 ∧
        Leads (markSweep (runNested .free 9 1) 9) { h with collecting := true }
          (fun _ k => ¬k.Strained) fun _ _ => True) = true := by
    decide +kernel
  obtain ⟨h, hh, hfacts⟩ := (Option.any_eq_true _ _).1 hplayed
  obtain ⟨hcount, hidle, hi, hquiet, hfuel, hcalm⟩ := of_decide_eq_true hfacts
  have hr : Reached .tidying h := reached_of_play hh
  obtain ⟨-, hconclusion, hcompletes⟩ := collect_fails_iff_strained hidle
  obtain ⟨result, k, hsweep⟩ := hcompletes .free 9 0 9 hr hi hquiet hfuel
  obtain ⟨⟨events, hcollect⟩, -⟩ := hconclusion _ 9 result k hsweep
  have hfits : ¬k.Strained := hcalm.of_ok hsweep
  rw [if_neg hfits] at hcollect
  exact ⟨h, result, k, events, hr, hcount, hidle, hsweep, hfits, hcollect⟩

/-- Settings whose trigger and minimum are as large as they can be. -/
def highestTrigger : Settings :=
  { Settings.standard with trigger := Word.largest, minTrigger := Word.largest, adaptive := true }

/-- They are valid, and with them a full collection of one rooted node fails: no guard is held,
there are no destructors and no headroom is earned. -/
theorem collect_overflows : ∃ h k, highestTrigger.validate = .ok highestTrigger ∧
    h.config = highestTrigger ∧ Ran (fun _ => false) [] h ∧ h.isInhibited = false ∧
    h.collecting = false ∧ h.Quiet ∧ h.nodeCount = 1 ∧
    h.headroom h.stats.fullCollections = 0 ∧
    collect (runNested .free 9 9) 9 h = .error .overflow k := by
  have hplayed : ((playWith highestTrigger [.allocate (.root "r") .node [] none]).any fun h =>
      h.config = highestTrigger ∧ h.isInhibited = false ∧ h.collecting = false ∧ h.Quiet ∧
        h.nodeCount = 1 ∧ h.headroom h.stats.fullCollections = 0 ∧
        Leads (collect (runNested .free 9 9) 9) h (fun _ _ => False)
          fun e _ => e = .overflow) = true := by
    decide +kernel
  obtain ⟨h, hh, hfacts⟩ := (Option.any_eq_true _ _).1 hplayed
  obtain ⟨hconfig, hi, hidle, hquiet, hcount, hearned, hfails⟩ := of_decide_eq_true hfacts
  cases hcollect : collect (runNested .free 9 9) 9 h with
  | ok result k => exact (hfails.of_ok hcollect).elim
  | error e k =>
    obtain rfl : e = .overflow := hfails.of_error hcollect
    exact ⟨h, k, rfl, hconfig, ran_of_playWith hh, hi, hidle, hquiet, hcount, hearned, hcollect⟩

end Mutator

end HybridHeap
