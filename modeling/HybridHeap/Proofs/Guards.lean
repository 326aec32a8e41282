import HybridHeap.Proofs.Lifetimes

/-!
# Guards are released on every way out

A collection holds itself off while it runs, and the manager notes that one is under way. Both are
undone however the collection ends: whatever failure unwinds out of it, from whatever depth of
sweeps, destructors and finalizers, between the steps of the mutator only the guards are left that
the mutator holds. While it holds any, a full collection that it asks for is a fatal error, and
nothing comes of it besides.
-/

namespace HybridHeap

open Collector Act

variable {h : Heap} {held : List (NodeId × Nat)} {run : Runner} {fuel : Nat}

/-- A full collection asked for while collections are held off and none is under way is a fatal
error, and the heap is as before but for what it tells of that. -/
theorem Collector.collect_inhibited (hcollecting : h.collecting = false)
    (hi : h.isInhibited = true) :
    collect run fuel h =
      .error (.fatal .inhibited) (h.log .error (Fatal.message .inhibited)) := by
  have hbegun : Heap.isInhibited { h with collecting := true } = true := hi
  -- The manager has noted that a collection is under way before the guards are looked at. The
  -- failure unwinds through that note.
  unfold collect markSweep
  simp only [bind, EStateM.bind, view, update, ensuring, fatal, hcollecting, hbegun,
    Bool.false_eq_true, if_false, if_true]
  cases h
  cases hcollecting
  rfl

/-- No finalizers are run after that. -/
theorem Collector.forceFullCollection_inhibited (hcollecting : h.collecting = false)
    (hi : h.isInhibited = true) :
    forceFullCollection run fuel h =
      .error (.fatal .inhibited) (h.log .error (Fatal.message .inhibited)) := by
  unfold forceFullCollection
  simp only [bind, EStateM.bind, collect_inhibited hcollecting hi]

namespace Mutator

variable {cuts : Failure → Bool}

/-- Then the step that asks for it is answered with the error, and leaves the heap as it was. -/
theorem answer_full_inhibited (hcollecting : h.collecting = false) (hi : h.isInhibited = true) :
    answer .free run fuel .full h =
      .ok (.mk (.failure (.fatal .inhibited)) h.summary
        [.logged .error (Fatal.message .inhibited)]) h := by
  have hperform : perform run fuel .full { h with events := [] } = .error (.fatal .inhibited)
      { h with events := [.logged .error (Fatal.message .inhibited)] } := by
    have hforce := @forceFullCollection_inhibited { h with events := [] } run fuel hcollecting hi
    unfold perform
    simp only [Functor.map, EStateM.map, hforce]
    rfl
  have hreply : replyOf .free (perform run fuel .full) { h with events := [] } =
      .ok (.failure (.fatal .inhibited))
        { h with events := [.logged .error (Fatal.message .inhibited)] } := by
    unfold replyOf
    rw [hperform]
    rfl
  have hpermit : permit .free .full h = .ok () h := rfl
  unfold answer
  simp only [bind, EStateM.bind, hpermit, view, update, hreply]
  rfl

/-- Whatever has failed before and whatever it has cut short, between the steps of the mutator
collections are held off by the guards that the mutator holds and by nothing else, and none is under
way. If it holds any, a full collection that it asks for then is a fatal error that changes
nothing. -/
theorem guards_released (hr : Ran cuts held h) :
    h.inhibitors = h.guards ∧ h.collecting = false ∧
      (h.inhibitors ≠ 0 → ∀ run fuel, answer .free run fuel .full h =
        .ok (.mk (.failure (.fatal .inhibited)) h.summary
          [.logged .error (Fatal.message .inhibited)]) h) := by
  have inv : Invariant .honest (.resumed true held) h := hr.invariant fun _ _ => rfl
  have hcollecting : h.collecting = false := inv.collecting
  refine ⟨inv.inhibitors, hcollecting, fun hi run fuel => answer_full_inhibited hcollecting ?_⟩
  simpa [Heap.isInhibited] using hi

/-- Two guards are taken, one by the mutator and one by a destructor that a fatal error then cuts
short in the middle of a full collection. -/
theorem guards_released_unwinding :
    ∃ h, Ran Failure.isFinal [] h ∧ h.fates 0 = [.started, .unwound] ∧ h.inhibitors = 2 ∧
      h.guards = 2 ∧ h.collecting = false ∧ ∀ run fuel, answer .free run fuel .full h =
        .ok (.mk (.failure (.fatal .inhibited)) h.summary
          [.logged .error (Fatal.message .inhibited)]) h := by
  have hresume : ((resume Failure.isFinal [.allocate .bare .node []
      (some [.inhibit "g", .allocate .bare .overaligned [] none]), .full, .inhibit "g'"]).any
        fun h => h.fates 0 = [.started, .unwound] ∧ h.inhibitors = 2 ∧ h.guards = 2) = true := by
    decide +kernel
  obtain ⟨h, hh, hfacts⟩ := (Option.any_eq_true _ _).1 hresume
  obtain ⟨hfates, hinhibitors, hguards⟩ := of_decide_eq_true hfacts
  have hr : Ran Failure.isFinal [] h := ran_of_resume hh
  obtain ⟨-, hcollecting, hfull⟩ := guards_released hr
  exact ⟨h, hr, hfates, hinhibitors, hguards, hcollecting, hfull (by omega)⟩

end Mutator

end HybridHeap
