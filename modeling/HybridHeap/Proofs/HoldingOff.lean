import HybridHeap.Proofs.Denials

/-!
# Guards hold collections off

While the mutator holds a guard no lite sweep and no full collection begins: a lite sweep returns at
once, a full collection is a fatal error that changes nothing, and an allocation runs neither. But
an allocation looks for guards only once, before the lite sweep that it may run first. A destructor
in that sweep may take a guard and keep it. If the heap is still above the trigger then, the
allocation goes on to ask for the full collection that it may not ask for.
-/

namespace HybridHeap

open Collector Act

variable {law : Law} {w : Juncture} {h k : Heap} {run : Runner} {fuel : Nat} {n : NodeId}

namespace Collector

/-! ## What guards hold off -/

/-- A lite sweep that is held off does nothing. -/
theorem liteSweep_inhibited (hi : h.isInhibited = true) : liteSweep run fuel h = .ok 0 h := by
  unfold liteSweep
  simp only [bind, EStateM.bind, view, hi, if_true]
  rfl

/-- Neither do the collections that would be due before an allocation. -/
theorem collectIfDue_inhibited (hi : h.isInhibited = true) :
    collectIfDue run fuel h = .ok () h := by
  unfold collectIfDue
  simp only [bind, EStateM.bind, view, hi, Bool.not_true, Bool.false_eq_true, if_false]
  rfl

/-- A full collection that is asked for while collections are held off is not begun: it is a fatal
error, or nothing at all if one is under way. -/
theorem collect_eq_of_inhibited (hi : h.isInhibited = true) :
    collect run fuel h = if h.collecting then .ok ⟨0, 0, 0⟩ h
      else .error (.fatal .inhibited) (h.log .error (Fatal.message .inhibited)) := by
  cases hcollecting : h.collecting with
  | true =>
    unfold collect
    simp only [bind, EStateM.bind, view, hcollecting, if_true]
    rfl
  | false => exact collect_inhibited hcollecting hi

/-- The collections that are due before an allocation are at odds: a lite sweep is due that nothing
holds off, and when it is over collections are held off, but the heap is still above the trigger. -/
def Overtaken (run : Runner) (fuel : Nat) (h : Heap) : Prop :=
  h.isInhibited = false ∧ liteDue h = true ∧ ∃ reclaimed h',
    liteSweep run fuel h = .ok reclaimed h' ∧ h'.isInhibited = true ∧ fullDue h' = true ∧
      h'.collecting = false

/-- That is when an allocation asks for a full collection that is held off. -/
theorem collectIfDue_inhibited_iff (hrun : ∀ program, Avoids (.fatal .inhibited) (run program)) :
    (∃ k, collectIfDue run fuel h = .error (.fatal .inhibited) k) ↔ Overtaken run fuel h := by
  cases hi : h.isInhibited with
  | true => simp [collectIfDue_inhibited hi, Overtaken, hi]
  | false =>
    -- The request for a full collection fails for that reason just where it is held off.
    have hfull : ∀ h₁, (∃ k, (do if ← Act.view fullDue then discard <| collect run fuel) h₁ =
          .error (.fatal .inhibited) k) ↔
        fullDue h₁ = true ∧ h₁.isInhibited = true ∧ h₁.collecting = false := by
      intro h₁
      cases hdue : fullDue h₁ with
      | false => simp [bind, EStateM.bind, view, hdue, Pure.pure, EStateM.pure]
      | true =>
        simp only [bind, EStateM.bind, view, hdue, if_true, discard_eq_error, true_and]
        cases hi₁ : h₁.isInhibited with
        | false =>
          have hne : ∀ k, collect run fuel h₁ ≠ .error (.fatal .inhibited) k := fun k =>
            collect_ne_denial rfl hrun fun hheld => by simp [hi₁] at hheld
          simp [hne]
        | true =>
          rw [collect_eq_of_inhibited hi₁]
          cases h₁.collecting <;> simp
    cases hlite : liteDue h with
    | false =>
      have hnow : collectIfDue run fuel h =
          (do if ← Act.view fullDue then discard <| collect run fuel) h := by
        unfold collectIfDue
        simp only [bind, EStateM.bind, view, hi, hlite, Bool.not_false, if_true,
          Bool.false_eq_true, if_false]
      simp only [hnow, hfull, Overtaken, hi, hlite]
      simp
    | true =>
      have hlater : collectIfDue run fuel h = (do
          discard <| liteSweep run fuel
          if ← Act.view fullDue then discard <| collect run fuel) h := by
        unfold collectIfDue
        simp only [bind, EStateM.bind, view, hi, hlite, Bool.not_false, if_true]
      constructor
      · rintro ⟨k, herror⟩
        rw [hlater, bind_eq_error, discard_eq_error] at herror
        obtain hsweep | ⟨_, h₁, hsweep, hrest⟩ := herror
        · exact absurd hsweep (avoids_liteSweep rfl hrun fuel h k)
        · obtain ⟨reclaimed, hsweep⟩ := discard_eq_ok.1 hsweep
          obtain ⟨hdue, hi₁, hcollecting⟩ := (hfull h₁).1 ⟨k, hrest⟩
          exact ⟨hi, hlite, reclaimed, h₁, hsweep, hi₁, hdue, hcollecting⟩
      · rintro ⟨-, -, reclaimed, h₁, hsweep, hi₁, hdue, hcollecting⟩
        obtain ⟨k, hrest⟩ := (hfull h₁).2 ⟨hdue, hi₁, hcollecting⟩
        refine ⟨k, ?_⟩
        rw [hlater, bind_eq_error]
        exact .inr ⟨PUnit.unit, h₁, discard_eq_ok.2 ⟨reclaimed, hsweep⟩, hrest⟩

/-- A full collection whose sweep leaves collections held off is not closed by a lite sweep. -/
theorem markSweep_of_inhibited {found : Nat × Nat} (hi : h.isInhibited = false)
    (hsweep : markAndSweep run fuel h = .ok found k) (hk : k.isInhibited = true) :
    markSweep run fuel h = .ok ⟨found.1, found.2, 0⟩ { k with phase := .idle } := by
  rw [markSweep_eq]
  simp only [bind, EStateM.bind, view, hi, Bool.false_eq_true, if_false, Pure.pure, EStateM.pure,
    hsweep, liteSweep_inhibited hk]
  rfl

/-- The allocation of a node fails for that reason only where it first runs the collections that are
due. -/
theorem overtaken_of_allocate (hrun : ∀ program, Avoids (.fatal .inhibited) (run program))
    {kind : Kind} {payload : Payload}
    (herror : allocate run fuel kind payload h = .error (.fatal .inhibited) k) :
    Overtaken run fuel (h.build kind payload) := by
  by_contra hnot
  have hdue : Leads (collectIfDue run fuel) (h.build kind payload) (fun _ _ => True)
      fun e _ => e ≠ .fatal .inhibited := by
    unfold Leads
    cases hcollect : collectIfDue run fuel (h.build kind payload) with
    | ok _ _ => trivial
    | error e k =>
      rintro rfl
      exact hnot ((collectIfDue_inhibited_iff hrun).1 ⟨k, hcollect⟩)
  have hplace : ∀ n, Leads (place run fuel n) (h.build kind payload) (fun _ _ => True)
      fun e _ => e ≠ .fatal .inhibited := by
    intro n
    refine leads_bind.2 (hdue.imp fun _ h₁ _ => Avoids.leads ?_)
    refine .bind (.view _) fun kind => .ite (.bind (.fatal (by simp)) fun _ => ?_) ?_
    all_goals
      refine .bind (.view _) fun base => ?_
      cases base with
      | none => exact .throw (by simp)
      | some base => exact avoids_install n base
  have hallocate : Leads (allocate run fuel kind payload) h (fun _ _ => True)
      fun e _ => e ≠ .fatal .inhibited := by
    unfold allocate
    simp only [leads_bind, leads_reserve, leads_onFailure, leads_pure]
    refine (hplace _).mono (fun _ _ _ => trivial) fun e h₁ he => ?_
    exact (avoids_dropPayload rfl hrun _).leads.mono (fun _ _ _ => he) fun e' _ he' =>
      Failure.andThen_ne he he'
  exact hallocate.of_error herror rfl

end Collector

namespace Mutator

/-! ## The mutator's steps -/

/-- The payload around which a mutator allocates a node. -/
def payloadFor (kind : Kind) (kids : List NodeId) (hook : Option Program) : Payload :=
  { places := placesFor kind.shape kids, hidden := [], tag := 0, borrowed := false, hook }

/-- Its edges are those to the kids. -/
@[simp] theorem allEdges_payloadFor (kind : Kind) (kids : List NodeId) (hook : Option Program) :
    (payloadFor kind kids hook).allEdges = kids := by
  unfold payloadFor Payload.allEdges Payload.edges
  rw [filterMap_placesFor, List.append_nil]

/-- An allocation that finds no guard runs a lite sweep, in which a destructor takes one, and is
still due for a full collection then. Its kids have been counted and its payload built by that
time. -/
def GuardedMeanwhile (run : Runner) (fuel : Nat) (kind : Kind) (kids : List NodeId)
    (hook : Option Program) (h : Heap) : Prop :=
  ∃ h₁ reclaimed h₂, kids.forM (countEdge kind) h = .ok () h₁ ∧ h₁.guards = 0 ∧
    liteDue h₁ = true ∧
    liteSweep run fuel (h₁.build kind (payloadFor kind kids hook)) = .ok reclaimed h₂ ∧
    0 < h₂.guards ∧ fullDue h₂ = true

/-- Where no operation holds off collections the guards of the mutator do. -/
theorem inhibitors_eq_guards (inv : Invariant law w h) (hguard : w.guard = none) :
    h.inhibitors = h.guards := by
  rw [inv.inhibitors]
  unfold Juncture.guards
  simp [hguard]

/-- A guard of the mutator holds collections off wherever the mutator runs. -/
theorem isInhibited_of_guards (inv : Invariant law w h) (hguards : 0 < h.guards) :
    h.isInhibited = true := by
  have hle : h.guards ≤ h.inhibitors := by
    rw [inv.inhibitors]
    exact Nat.le_add_right _ _
  unfold Heap.isInhibited
  rw [bne_iff_ne]
  omega

/-- An allocation of the mutator fails because collections are held off only if a guard is taken
meanwhile. -/
theorem allocate_guardedMeanwhile {form : AllocForm} {kind : Kind} {kids : List NodeId}
    {hook : Option Program} (hkeeps : run.Keeps law w.torn w.scarred)
    (hrun : ∀ program, Avoids (.fatal .inhibited) (run program)) (hready : w.Ready)
    (inv : Invariant law w h)
    (herror : allocate run fuel form kind kids hook h = .error (.fatal .inhibited) k) :
    GuardedMeanwhile run fuel kind kids hook h := by
  by_contra hnot
  -- After the children were counted, only the allocation of the node itself can meet a guard.
  have hnode : ∀ h₁, kids.forM (countEdge kind) h = .ok () h₁ →
      Invariant law (w.holding kids) h₁ →
      Leads (Collector.allocate run fuel kind (payloadFor kind kids hook)) h₁ (fun _ _ => True)
        fun e _ => e ≠ .fatal .inhibited := by
    intro h₁ hcount inv₁
    unfold Leads
    cases hallocate : Collector.allocate run fuel kind (payloadFor kind kids hook) h₁ with
    | ok _ _ => trivial
    | error e k =>
      rintro rfl
      rw [← allEdges_payloadFor kind kids hook] at inv₁
      have inv₂ := inv₁.build kind
      obtain ⟨hi, hlite, reclaimed, h₂, hsweep, hi₂, hfull, -⟩ :=
        overtaken_of_allocate hrun hallocate
      have hguard := guard_eq_none inv₂ hi
      have hopen := hready.toOpen.build h₁.nodes.size
      have hkept := liteSweep_spec (w := { w with building := h₁.nodes.size :: w.building }) hkeeps
        fuel hopen.idle hopen.swept inv₂
      have inv₃ := (hkept.of_ok hsweep).1
      have hbefore := inhibitors_eq_guards inv₂ hguard
      have hafter := inhibitors_eq_guards inv₃ hguard
      refine hnot ⟨h₁, reclaimed, h₂, hcount, ?_, hlite, hsweep, ?_, hfull⟩
      · rw [show h₁.guards = (h₁.build kind (payloadFor kind kids hook)).guards from rfl, ← hbefore]
        simpa [Heap.isInhibited] using hi
      · rw [← hafter]
        exact Nat.pos_of_ne_zero (by simpa [Heap.isInhibited] using hi₂)
  have hallocate : Leads (allocate run fuel form kind kids hook) h (fun _ _ => True)
      fun e _ => e ≠ .fatal .inhibited := by
    have hcounted : (∀ n ∈ kids, h.Referable w n) →
        Leads (do
          kids.forM (countEdge kind)
          let n ← Collector.allocate run fuel kind (payloadFor kind kids hook)
          keepAs n form
          return n) h (fun _ _ => True) fun e _ => e ≠ .fatal .inhibited := by
      intro hkids
      have hcounted : Returns (kids.forM (countEdge kind)) h fun _ =>
          Invariant law (w.holding kids) := forM_countEdge_spec inv hkids
      obtain ⟨_, h₁, hcount, inv₁⟩ := returns_iff.1 hcounted
      simp only [leads_bind, leads_pure]
      unfold Leads
      rw [hcount]
      dsimp only
      refine (hnode h₁ hcount inv₁).imp fun n h₂ _ => ?_
      exact (avoids_keepAs rfl n form).leads
    unfold allocate
    simp only [leads_bind]
    refine ((requireForm_spec (Q := fun _ h' => h' = h) hready inv fun _ => rfl).and
      (avoids_requireForm rfl form).leads).mono ?_ fun _ _ he => he.2
    rintro _ h₀ ⟨heq, -⟩
    rw [heq]
    refine ((requireKids_spec (Q := fun _ h' => h' = h ∧ ∀ n ∈ kids, h.Referable w n) hready inv
      fun hkids => ⟨rfl, hkids⟩).and (avoids_requireKids rfl kind kids).leads).mono ?_
      fun _ _ he => he.2
    rintro _ h₀' ⟨⟨heq', hkids⟩, -⟩
    rw [heq']
    split
    · simp [refuse, leads_throw]
    · exact hcounted hkids
  exact hallocate.of_error herror rfl

/-- The heaps that a mutator comes to: those between its own steps, whatever has failed before, and
those at any step inside destructors, finalizers and bodies of holds, if no error was fatal. -/
def Meets (h : Heap) : Prop :=
  Visited .honest h ∨ ∃ cuts held, Ran cuts held h

/-- They satisfy the invariant, but for what a failure may tear and scar. -/
theorem Meets.invariant (hm : Meets h) :
    ∃ w, w.Ready ∧ w.torn = true ∧ w.scarred = true ∧ Invariant .honest w h := by
  obtain hv | ⟨cuts, held, hr⟩ := hm
  · obtain ⟨w, hw, inv⟩ := hv.invariant
    have hready : Juncture.Ready { w with torn := true, scarred := true } :=
      { hw.toReady with idle := fun hguard => { hw.idle hguard with } }
    exact ⟨_, hready, rfl, rfl, inv.tear.scar hw.scarred⟩
  · exact ⟨_, Juncture.ready_resumed true held, rfl, rfl, hr.invariant fun _ _ => rfl⟩

/-- Destructors that some failures cut short keep the invariant there. -/
theorem Meets.keeps (hm : Meets h) : ∃ w, w.Ready ∧ w.torn = true ∧ Invariant .honest w h ∧
    ∀ cuts fuel depth,
      Runner.Keeps .honest w.torn w.scarred (runNested (.cutting cuts) fuel depth) := by
  obtain ⟨w, hready, htorn, hscarred, inv⟩ := hm.invariant
  refine ⟨w, hready, htorn, inv, fun cuts fuel depth => ?_⟩
  rw [htorn, hscarred]
  exact runNested_keeps (Terms.keep_cutting fun _ _ => rfl) fuel depth

/-- As long as the mutator holds a guard, no collection begins: a lite sweep returns at once, a full
collection is refused or ignored, an allocation runs neither, and a full collection in whose sweep a
destructor has taken the guard is not closed by a lite sweep. An allocation fails because
collections are held off only if a guard is taken by a destructor in the lite sweep that it runs
first, and the full collection is due all the same. -/
theorem held_off (hm : Meets h) :
    (0 < h.guards → ∀ run fuel, liteSweep run fuel h = .ok 0 h ∧
      collect run fuel h = (if h.collecting then .ok ⟨0, 0, 0⟩ h
        else .error (.fatal .inhibited) (h.log .error (Fatal.message .inhibited))) ∧
      collectIfDue run fuel h = .ok () h) ∧
    ∀ cuts : Failure → Bool, cuts (.fatal .inhibited) = false → ∀ fuel depth,
      (h.isInhibited = false → ∀ found h',
        markAndSweep (runNested (.cutting cuts) fuel depth) fuel h = .ok found h' →
        0 < h'.guards → markSweep (runNested (.cutting cuts) fuel depth) fuel h =
          .ok ⟨found.1, found.2, 0⟩ { h' with phase := .idle }) ∧
      ∀ form kind kids hook k,
        perform (runNested (.cutting cuts) fuel depth) fuel (.allocate form kind kids hook) h =
          .error (.fatal .inhibited) k →
        GuardedMeanwhile (runNested (.cutting cuts) fuel depth) fuel kind kids hook h := by
  obtain ⟨w, hready, htorn, hscarred, inv⟩ := hm.invariant
  refine ⟨fun hguards run fuel => ?_, fun cuts hcuts fuel depth => ⟨?_, ?_⟩⟩
  · have hi := isInhibited_of_guards inv hguards
    exact ⟨liteSweep_inhibited hi, collect_eq_of_inhibited hi, collectIfDue_inhibited hi⟩
  · intro hi found h' hsweep hguards
    have hkeeps : Runner.Keeps .honest w.torn w.scarred (runNested (.cutting cuts) fuel depth) := by
      rw [htorn, hscarred]
      exact runNested_keeps (Terms.keep_cutting fun _ _ => rfl) fuel depth
    have hguard := guard_eq_none inv hi
    have hkept := markAndSweep_lists hkeeps fuel (hready.idle hguard) hguard inv
    obtain ⟨inv', -⟩ := hkept.of_ok hsweep
    exact markSweep_of_inhibited hi hsweep (isInhibited_of_guards inv' hguards)
  · intro form kind kids hook k herror
    have hkeeps : Runner.Keeps .honest w.torn w.scarred (runNested (.cutting cuts) fuel depth) := by
      rw [htorn, hscarred]
      exact runNested_keeps (Terms.keep_cutting fun _ _ => rfl) fuel depth
    have hallocate : allocate (runNested (.cutting cuts) fuel depth) fuel form kind kids hook h =
        .error (.fatal .inhibited) k := map_eq_error.1 herror
    exact allocate_guardedMeanwhile hkeeps (avoids_runNested rfl hcuts fuel depth) hready inv
      hallocate

/-- The failure that a step was answered with. -/
def failure? : Answer → Option Failure
  | .mk (.failure e) _ _ => some e
  | _ => none

/-- A node that nothing counts and whose destructor takes a guard, and before the next allocation
the trigger is exceeded. -/
def takingGuard : Program :=
  [.allocate (.root "r") .node [] none, .allocate (.edge "e") .node [] (some [.inhibit "g"]),
    .drop "e", .setTrigger 1]

/-- The heap to which that leads where every allocation is preceded by a lite sweep. -/
def guardToTake : Option Heap :=
  let config := { Settings.standard with mode := .aggressive, minTrigger := 0, adaptive := false }
  match takingGuard.mapM (answer .free (runNested (.cutting fun _ => false) 9 9) 9)
      (.start config none none fun _ => 0) with
  | .ok _ h => some h
  | .error _ _ => none

theorem ran_of_guardToTake (hh : guardToTake = some h) : Ran (fun _ => false) [] h := by
  unfold guardToTake at hh
  dsimp only at hh
  split at hh
  · rename_i hrun
    cases hh
    exact (Ran.start _ _ _ _).mapM_answer hrun
  · cases hh

/-- The next allocation fails, and once its failure is answered the guard holds collections off. -/
theorem held_off_taken : ∃ h k a h', Meets h ∧ h.guards = 0 ∧
    perform (runNested (.cutting fun _ => false) 9 9) 9 (.allocate .bare .node [] none) h =
      .error (.fatal .inhibited) k ∧
    GuardedMeanwhile (runNested (.cutting fun _ => false) 9 9) 9 .node [] none h ∧
    answer .free (runNested (.cutting fun _ => false) 9 9) 9 (.allocate .bare .node [] none) h =
      .ok a h' ∧ h'.guards = 1 ∧ ∀ run fuel, collectIfDue run fuel h' = .ok () h' := by
  let run := runNested (.cutting fun _ => false) 9 9
  let step : Step := .allocate .bare .node [] none
  have hplayed : (guardToTake.any fun h => h.guards = 0 ∧
      Leads (perform run 9 step) h (fun _ _ => False) (fun e _ => e = .fatal .inhibited) ∧
      Returns (answer .free run 9 step) h fun _ h' => h'.guards = 1) = true := by
    decide +kernel
  obtain ⟨h, hh, hfacts⟩ := (Option.any_eq_true _ _).1 hplayed
  obtain ⟨hguards, hperform, hanswer⟩ := of_decide_eq_true hfacts
  have hr : Ran (fun _ => false) [] h := ran_of_guardToTake hh
  obtain ⟨k, herror⟩ : ∃ k, perform run 9 step h = .error (.fatal .inhibited) k := by
    unfold Leads at hperform
    split at hperform
    · exact hperform.elim
    · rename_i e k hfailed
      exact ⟨k, by rw [hfailed, hperform]⟩
  obtain ⟨a, h', hanswered, htaken⟩ := returns_iff.1 hanswer
  have hmet : Meets h := .inr ⟨_, _, hr⟩
  have hmet' : Meets h' := .inr ⟨_, _, hr.step hanswered⟩
  obtain ⟨-, hmeanwhile⟩ := held_off hmet
  obtain ⟨-, hallocate⟩ := hmeanwhile (fun _ => false) rfl 9 9
  obtain ⟨hhold, -⟩ := held_off hmet'
  exact ⟨h, k, a, h', hmet, hguards, herror, hallocate .bare .node [] none k herror, hanswered,
    htaken, fun run fuel => (hhold (by omega) run fuel).2.2⟩

/-- A destructor in the lite sweep of an allocation takes a guard, and the allocation goes on to ask
for a full collection and ends in the fatal error that this is. -/
theorem allocation_requests_while_inhibited :
    ∃ h a h', Ran (fun _ => false) [] h ∧ h.inhibitors = 0 ∧
      answer .free (runNested (.cutting fun _ => false) 9 9) 9 (.allocate .bare .node [] none) h =
        .ok a h' ∧ failure? a = some (.fatal .inhibited) ∧ h'.isAllocated 2 = false := by
  let run := runNested (.cutting fun _ => false) 9 9
  let step : Step := .allocate .bare .node [] none
  have hplayed : (guardToTake.any fun h => h.inhibitors = 0 ∧
      Returns (answer .free run 9 step) h fun a h' =>
        failure? a = some (.fatal .inhibited) ∧ h'.isAllocated 2 = false) = true := by
    decide +kernel
  obtain ⟨h, hh, hfacts⟩ := (Option.any_eq_true _ _).1 hplayed
  obtain ⟨hinhibitors, hanswer⟩ := of_decide_eq_true hfacts
  obtain ⟨a, h', hanswered, hfailed, hunplaced⟩ := returns_iff.1 hanswer
  exact ⟨h, a, h', ran_of_guardToTake hh, hinhibitors, hanswered, hfailed, hunplaced⟩

end Mutator

end HybridHeap
