import HybridHeap.Proofs.Safety

/-!
# When finalizers run

A request for a lite sweep or a full collection runs the finalizers that are pending once the
collection is over, or has turned out to be no collection at all because another one is under way.
So a finalizer never runs inside the collection that its own request is for. But a request may come
from a destructor, and then it starts the finalizers inside the collection that runs the destructor,
those included that this collection has queued itself.
-/

namespace HybridHeap

open Collector Act

variable {law : Law} {w : Juncture} {h k : Heap} {f : Finalizer} {run : Runner} {fuel : Nat}

/-- A lite sweep or the mark and sweep of a full collection is under way: a guard is held that is
none of the mutator's, or the collector is not idle. -/
def Heap.Collects (h : Heap) : Prop := h.guards < h.inhibitors ∨ h.phase ≠ .idle

/-- Whether a collection is under way is known from the juncture. -/
theorem Invariant.collects_iff (inv : Invariant law w h) (htorn : w.torn = false) :
    h.Collects ↔ w.guard.isSome = true ∨ w.phase ≠ .idle := by
  have hguards : h.guards < h.inhibitors ↔ w.guard.isSome = true := by
    rw [inv.inhibitors]
    unfold Juncture.guards
    cases w.guard.isSome <;> simp
  unfold Heap.Collects
  rw [hguards, inv.phase htorn]

namespace Answer

/-- The phase that a step was answered with, if it asked for it. -/
def phase? : Answer → Option Phase
  | .mk (.phase p) _ _ => some p
  | _ => none

/-- The answers of the destructors that ran during a step. -/
def inDestructors : Answer → List Answer
  | .mk _ _ events => events.flatMap fun
    | .destructor _ answers => answers
    | _ => []

/-- The answers of the finalizers that ran during a step. -/
def inFinalizers : Answer → List Answer
  | .mk _ _ events => events.flatMap fun
    | .finalizer _ answers => answers
    | _ => []

end Answer

namespace Collector

/-- The loop over the pending finalizers, begun on `h` with so much fuel, starts the finalizer `f`
on the heap `k`. -/
inductive Starts (run : Runner) : Nat → Heap → Heap → Finalizer → Prop where
  | next {fuel : Nat} {h : Heap} {f : Finalizer} (hf : h.pending.head? = some f) :
    Starts run (fuel + 1) h (h.takeUp f) f
  | later {fuel : Nat} {h h' k : Heap} {f g : Finalizer} {answers : List Answer}
    (hf : h.pending.head? = some f)
    (hrun : run f.program (h.takeUp f) = .ok answers h')
    (hrest : Starts run fuel (h'.emit (.finalizer f.name answers)) k g) :
    Starts run (fuel + 1) h k g

/-- A request for a collection, made on `h`, starts the finalizer `f` on the heap `k`. -/
inductive Requests (run : Runner) (fuel : Nat) (h k : Heap) (f : Finalizer) : Prop where
  | lite {reclaimed : Nat} {h' : Heap} (hsweep : liteSweep run fuel h = .ok reclaimed h')
    (hstarts : Starts run fuel h' k f)
  | full {result : CollectionResult} {h' : Heap} (hcollect : collect run fuel h = .ok result h')
    (hstarts : Starts run fuel h' k f)

/-- Every finalizer is started at the juncture at which the loop was begun. -/
theorem Starts.invariant (hrun : run.Keeps law w.torn w.scarred) (hready : w.Ready)
    (hs : Starts run fuel h k f) (inv : Invariant law w h) : Invariant law w k := by
  induction hs with
  | next hf => exact inv.takeUp hf
  | @later fuel h h' k f g answers hf hanswers _ ih =>
    have hkeeps := hrun w f.program _ rfl rfl hready (inv.takeUp hf)
    exact ih { hkeeps.of_ok hanswers with }

/-- Every finalizer is started at the juncture of the request. -/
theorem Requests.invariant (hrun : run.Keeps law w.torn w.scarred) (hready : w.Ready)
    (hs : Requests run fuel h k f) (inv : Invariant law w h) : Invariant law w k := by
  rcases hs with ⟨hsweep, hstarts⟩ | ⟨hcollect, hstarts⟩
  · have hkeeps := liteSweep_spec hrun fuel hready.idle hready.swept inv
    exact hstarts.invariant hrun hready (hkeeps.of_ok hsweep).1
  · have hkeeps := collect_spec hrun fuel hready.toOpen inv
    exact hstarts.invariant hrun hready (hkeeps.of_ok hcollect).1

end Collector

namespace Mutator

/-- Wherever the mutator asks for a collection, between its own steps or inside destructors and
finalizers, the finalizers that the request starts run in just those collections that were under way
when it was made. If no destructor is running there are none. -/
theorem collects_iff_of_requests {depth : Nat} (hv : Visited law h)
    (hs : Requests (runNested (.under law) fuel depth) fuel h k f) :
    (k.Collects ↔ h.Collects) ∧ k.phase = h.phase ∧ k.collecting = h.collecting ∧
      k.dying = h.dying ∧ (h.dying = [] → ¬k.Collects) := by
  obtain ⟨w, hwhole, inv⟩ := hv.invariant
  have hkeeps : Runner.Keeps law w.torn w.scarred (runNested (.under law) fuel depth) := by
    rw [hwhole.torn, hwhole.scarred]
    exact runNested_keeps (Terms.keep_under law) fuel depth
  have inv' : Invariant law w k := hs.invariant hkeeps hwhole.toReady inv
  have hcollects := inv'.collects_iff hwhole.torn
  refine ⟨hcollects.trans (inv.collects_iff hwhole.torn).symm, ?_, ?_, ?_, fun hdying => ?_⟩
  · exact (inv'.phase hwhole.torn).trans (inv.phase hwhole.torn).symm
  · exact inv'.collecting.trans inv.collecting.symm
  · exact inv'.dying.trans inv.dying.symm
  · obtain ⟨hguard, hcollecting, -⟩ := hwhole.still (inv.dying.symm.trans hdying)
    rw [hcollects, hguard, hwhole.calm hguard hcollecting]
    simp

/-- A full collection in which the key of a weak reference dies starts the finalizer when it is
over. -/
theorem collects_iff_of_requests_full :
    ∃ h k f, Visited .honest h ∧ h.dying = [] ∧
      Requests (runNested (.under .honest) 9 9) 9 h k f ∧ ¬k.Collects := by
  have hplay : ((play .honest [.allocate .bare .node [] none, .weak "w" 0 none (some [])]).any
        fun h => h.dying = [] ∧ Returns (collect (runNested (.under .honest) 9 9) 9) h
          fun _ h' => h'.pending.head?.isSome = true) = true := by
    decide +kernel
  obtain ⟨h, hh, hfacts⟩ := (Option.any_eq_true _ _).1 hplay
  obtain ⟨hdying, hfull⟩ := of_decide_eq_true hfacts
  obtain ⟨result, h', hcollect, hpending⟩ := returns_iff.1 hfull
  obtain ⟨f, hf⟩ := Option.isSome_iff_exists.1 hpending
  have hv : Visited .honest h := ⟨h, reached_of_play hh, .inl rfl⟩
  have hs : Requests (runNested (.under .honest) 9 9) 9 h (h'.takeUp f) f :=
    .full hcollect (.next hf)
  obtain ⟨-, -, -, -, hidle⟩ := collects_iff_of_requests hv hs
  exact ⟨h, _, f, hv, hdying, hs, hidle hdying⟩

/-! ## Requests from destructors -/

/-- The destructor of a garbage node that is the key of a weak reference asks for a lite sweep,
which does nothing but start the finalizer of the weak reference, and the finalizer finds the
collector sweeping. -/
theorem finalizer_runs_in_sweep :
    ∃ answers h', runNested (.under .honest) 9 9 [.allocate .bare .node [] (some [.lite]),
        .weak "w" 0 none (some [.phase]), .full] (.start .standard none none fun _ => 0) =
        .ok answers h' ∧
      ∃ full ∈ answers, ∃ lite ∈ full.inDestructors, ∃ asked ∈ lite.inFinalizers,
        asked.phase? = some .sweeping := by
  apply returns_iff.1
  decide +kernel

end Mutator

end HybridHeap
