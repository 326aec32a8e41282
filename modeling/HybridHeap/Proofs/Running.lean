import HybridHeap.Proofs.Stepping

/-!
# Every run keeps the invariant

Programs nest, because destructors and finalizers are programs, so what a run keeps is proved by
induction on how deep they may nest, for any terms that keep the law. The heaps that a mutator
reaches between its own steps are those of `Reached`. The heaps that it sees between any two steps,
those of destructors, finalizers and bodies of holds included, are those of `Sees`: told to stop at
such a heap, a run does.
-/

namespace HybridHeap.Mutator

open Collector Act

variable {law : Law} {w : Juncture} {h : Heap} {terms : Terms} {run : Runner}

/-- The terms of a mutator that keeps the law: it does not take a step that breaks it, and a fatal
error ends its run. -/
def Terms.under (law : Law) : Terms where
  objection := fun h step => if law.allows h step then none else some .exhausted
  ends := Failure.isFinal

/-- Terms on which a run keeps the law: what is not objected to is in keeping with it, and an
objection ends the run for good, as does every failure that hides the heap. In a heap that may be
torn an edge may be dropped twice besides, and in one that may also be scarred any failure may
end the run of a destructor. -/
structure Terms.Keep (terms : Terms) (law : Law) (torn scarred : Bool) : Prop where
  allowed : ∀ w h step, w.torn = torn → w.scarred = scarred → w.Ready → Invariant law w h →
    terms.objection h step = none →
      torn = true ∧ (∃ n, step = .underflow n) ∨ law.allows h step = true
  final : ∀ w h step e, w.torn = torn → w.scarred = scarred → w.Ready → Invariant law w h →
    terms.objection h step = some e → e.hides torn = true ∧ (!torn && e.isUnderflow) = false
  ends : ∀ e, e.hides torn = true → terms.ends e = true
  cuts : ∀ e, terms.ends e = true → e.hides torn = false → torn = true ∧ scarred = true

/-- A mutator that keeps the law and whose run a fatal error ends does. -/
theorem Terms.keep_under (law : Law) : (Terms.under law).Keep law false false where
  allowed := fun w h step _ _ _ _ hnone => by
    by_contra hlaw
    rw [not_or] at hlaw
    simp [Terms.under, hlaw.2] at hnone
  final := fun w h step e _ _ _ _ hsome => by
    unfold Terms.under at hsome
    dsimp only at hsome
    split_ifs at hsome
    cases hsome
    exact ⟨rfl, rfl⟩
  ends := fun _ he => he
  cuts := fun _ he hf => absurd (he.symm.trans hf) (by simp)

/-- So they do wherever the mutator runs in a heap that is whole. -/
theorem Terms.keep_of_whole {w : Juncture} (hw : w.Whole) (law : Law) :
    (Terms.under law).Keep law w.torn w.scarred := by
  rw [hw.torn, hw.scarred]
  exact Terms.keep_under law

/-- Answering a step keeps the invariant. -/
theorem answer_spec (hterms : terms.Keep law w.torn w.scarred)
    (hrun : run.Keeps law w.torn w.scarred) (fuel : Nat) (hready : w.Ready)
    (inv : Invariant law w h) (step : Step) :
    Leads (answer terms run fuel step) h (fun _ => Invariant law w)
      (Failed (fun h' => w.Unwinds ∧ Invariant law w h') w.torn) := by
  unfold answer permit
  simp only [leads_bind, leads_view, leads_update, leads_pure]
  split
  · rename_i hnone
    simp only [leads_pure]
    have hperform := perform_spec (h := { h with events := [] }) hrun fuel hready { inv with }
      (hterms.allowed w h step rfl rfl hready inv hnone)
    unfold Leads at hperform ⊢
    unfold replyOf
    dsimp only
    cases hx : perform run fuel step { h with events := [] } with
    | ok reply h' =>
      rw [hx] at hperform
      exact { hperform with }
    | error e h' =>
      rw [hx] at hperform
      dsimp only at hperform ⊢
      cases he : terms.ends e with
      | true => exact ⟨hperform.1, fun hf => ⟨hterms.cuts e he hf, hperform.2 hf⟩⟩
      | false =>
        have hf : e.hides w.torn = false :=
          Bool.eq_false_iff.2 fun hf => by simp [hterms.ends e hf] at he
        exact { hperform.2 hf with }
  · rename_i e hsome
    obtain ⟨hhides, hunder⟩ := hterms.final w h step e rfl rfl hready inv hsome
    exact leads_throw.2 (.of_hides hhides hunder)

/-- Answering the steps of a program one after the other keeps the invariant. -/
theorem mapM_answer_spec (hterms : terms.Keep law w.torn w.scarred)
    (hrun : run.Keeps law w.torn w.scarred) (fuel : Nat) (hready : w.Ready)
    (inv : Invariant law w h) (program : Program) :
    Leads (program.mapM (answer terms run fuel)) h (fun _ => Invariant law w)
      (Failed (fun h' => w.Unwinds ∧ Invariant law w h') w.torn) := by
  induction program generalizing h with
  | nil => exact inv
  | cons step program ih =>
    rw [List.mapM_cons]
    simp only [leads_bind, leads_pure]
    exact (answer_spec hterms hrun fuel hready inv step).imp
      fun _ h₁ inv₁ => (ih inv₁).imp fun _ _ inv₂ => inv₂

/-- However deep programs nest, running them keeps the invariant. -/
theorem runNested_keeps {torn scarred : Bool} (hterms : terms.Keep law torn scarred)
    (fuel depth : Nat) : Runner.Keeps law torn scarred (runNested terms fuel depth) := by
  induction depth with
  | zero => exact fun _ _ _ _ _ _ _ => leads_throw.2 .exhausted
  | succ depth ih =>
    rintro w program h rfl rfl hready inv
    exact mapM_answer_spec hterms ih fuel hready inv program

/-! ## Reached heaps -/

/-- A step that is in keeping with the law and returns is answered with what it returns. -/
theorem answer_of_ok {run : Runner} {fuel : Nat} {step : Step} {reply : Reply} {k : Heap}
    (hlaw : law.allows h step = true)
    (hstep : perform run fuel step { h with events := [] } = .ok reply k) :
    answer (.under law) run fuel step h =
      .ok (.mk reply k.summary k.events.reverse) { k with events := h.events } := by
  have hpermit : permit (.under law) step h = .ok () h := by
    unfold permit
    simp only [bind, EStateM.bind, view, Terms.under, hlaw, if_true]
    rfl
  have hreply : replyOf (.under law) (perform run fuel step) { h with events := [] } =
      .ok reply k := by
    unfold replyOf
    rw [hstep]
  unfold answer
  simp only [bind, EStateM.bind, hpermit, view, update, hreply]
  rfl

/-- The heaps that a mutator keeping the law reaches between its own steps without a fatal error,
whatever the settings, the memory and the clock, and however deep its programs nest. -/
inductive Reached (law : Law) : Heap → Prop where
  | start (config : Settings) (limit quarantine : Option Nat) (headroom : Nat → Nat) :
    Reached law (Heap.start config limit quarantine headroom)
  | step {h h' : Heap} {fuel depth : Nat} {step : Step} {a : Answer} (hr : Reached law h)
    (hstep : answer (.under law) (runNested (.under law) fuel depth) fuel step h = .ok a h') :
    Reached law h'

/-- Every heap that is reached satisfies the invariant. -/
theorem Reached.invariant (hr : Reached law h) : Invariant law .rest h := by
  induction hr with
  | start config limit quarantine headroom =>
    exact .start law config limit quarantine headroom
  | @step h h' fuel depth step a _ hstep inv =>
    have hterms := Terms.keep_under law
    have hanswer := answer_spec hterms (runNested_keeps hterms fuel depth) fuel
      Juncture.ready_rest inv step
    exact hanswer.of_ok hstep

/-- No destructor is running between the mutator's own steps. -/
theorem Reached.dying (hr : Reached law h) : h.dying = [] := hr.invariant.dying

/-- What every step that is answered preserves is preserved by a program that returns. -/
theorem mapM_answer_preserves {P : Heap → Prop} {fuel : Nat} {program : Program}
    {as : List Answer} {h' : Heap}
    (hstep : ∀ {h h' step a}, P h → answer terms run fuel step h = .ok a h' → P h') (hP : P h)
    (hrun : program.mapM (answer terms run fuel) h = .ok as h') : P h' := by
  induction program generalizing h as with
  | nil =>
    cases hrun
    exact hP
  | cons step program ih =>
    rw [List.mapM_cons, bind_eq_ok] at hrun
    obtain ⟨a, h₁, ha, hrest⟩ := hrun
    obtain ⟨as', h₂, has, hdone⟩ := bind_eq_ok.1 hrest
    cases hdone
    exact ih (hstep hP ha) has

/-- A program that returns leads from a heap that is reached to another. -/
theorem Reached.mapM_answer {fuel depth : Nat} {program : Program} {as : List Answer} {h' : Heap}
    (hr : Reached law h)
    (hrun : program.mapM (answer (.under law) (runNested (.under law) fuel depth) fuel) h =
      .ok as h') : Reached law h' :=
  mapM_answer_preserves (fun hr hstep => hr.step hstep) hr hrun

/-- The heap to which a program leads from the start with the standard settings, if it returns. -/
def play (law : Law) (program : Program) : Option Heap :=
  let fuel := Program.size program + 2
  match runNested (.under law) fuel fuel program (.start .standard none none fun _ => 0) with
  | .ok _ h => some h
  | .error _ _ => none

/-- Where a program leads from the start is reached. -/
theorem reached_of_play {program : Program} (hplay : play law program = some h) :
    Reached law h := by
  unfold play at hplay
  dsimp only at hplay
  split at hplay
  · rename_i hrun
    cases hplay
    exact (Reached.start _ _ _ _).mapM_answer hrun
  · cases hplay

/-! ## Heaps seen on the way -/

/-- The failure by which a run tells that it has come to a heap. No run ends with it otherwise. -/
def arrival : Failure := .fatal (.underflow .empty 0)

open Classical in
/-- The terms on which a run stops where it comes to a given heap, and is else as before. -/
noncomputable def Terms.until (terms : Terms) (k : Heap) : Terms :=
  { terms with objection := fun h step => if h = k then some arrival else terms.objection h step }

/-- A mutator that runs a program from a heap on sees another heap, at the beginning of some step of
the program itself or of a program that runs inside it. -/
def Sees (law : Law) (fuel depth : Nat) (program : Program) (h k : Heap) : Prop :=
  ∃ h', runNested ((Terms.under law).until k) fuel depth program h = .error arrival h'

/-- Every heap that a mutator sees satisfies the invariant, at some juncture. -/
theorem Sees.invariant {fuel depth : Nat} {program : Program} {k : Heap} (hr : Reached law h)
    (hsees : Sees law fuel depth program h k) : ∃ w, w.Whole ∧ Invariant law w k := by
  by_contra hnone
  -- Where the invariant holds the run is not stopped, so it never is.
  have hne : ∀ w h step, w.torn = false → w.scarred = false → w.Ready → Invariant law w h →
      ((Terms.under law).until k).objection h step = (Terms.under law).objection h step := by
    intro w h step hw hs hready inv
    refine if_neg fun heq => hnone ⟨w, ⟨hready, hw, hs⟩, ?_⟩
    rwa [← heq]
  have hunder := Terms.keep_under law
  have hterms : ((Terms.under law).until k).Keep law false false :=
    { allowed := fun w h step hw hs hready inv hobj =>
        hunder.allowed w h step hw hs hready inv (by rwa [hne w h step hw hs hready inv] at hobj)
      final := fun w h step e hw hs hready inv hobj =>
        hunder.final w h step e hw hs hready inv (by rwa [hne w h step hw hs hready inv] at hobj)
      ends := hunder.ends
      cuts := hunder.cuts }
  obtain ⟨h', hrun⟩ := hsees
  have hkeeps := runNested_keeps hterms fuel depth _ program h rfl rfl Juncture.ready_rest
    hr.invariant
  have hunderflow : arrival.isUnderflow = false := (hkeeps.of_error hrun).1
  cases hunderflow

end HybridHeap.Mutator
