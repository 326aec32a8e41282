import HybridHeap.Proofs.Guards
import HybridHeap.Proofs.Sweeping

/-!
# Denials

Two requests can be denied: one for a full collection, where collections are held off, and one for
memory, where there is none left. Of what the collector does only making the one or the other fails
that way. Everything else avoids both failures, as long as the destructors that it runs avoid them,
and those do in which such a failure is answered. So where an allocation fails with a denial, the
request was its own.
-/

namespace HybridHeap

open Collector

variable {α β : Type} {h k : Heap} {run : Runner} {fuel : Nat} {n : NodeId} {e : Failure}

namespace Failure

/-- A request has been denied. -/
def isDenial : Failure → Bool
  | .fatal .inhibited | .outOfMemory _ => true
  | _ => false

/-- What is no denial is another failure. -/
theorem ne_denial {e' : Failure} (he : e.isDenial = true) (he' : e'.isDenial = false) : e' ≠ e :=
  fun heq => by
    rw [heq, he] at he'
    cases he'

/-- Of two failures one is reported. -/
theorem andThen_eq_or (e cleanup : Failure) :
    e.andThen cleanup = e ∨ e.andThen cleanup = cleanup := by
  unfold andThen
  split
  · exact .inl rfl
  · exact .inr rfl

/-- What neither of two failures is, is not reported. -/
theorem andThen_ne {e₁ e₂ : Failure} (h₁ : e₁ ≠ e) (h₂ : e₂ ≠ e) : e₁.andThen e₂ ≠ e := by
  obtain heq | heq := andThen_eq_or e₁ e₂
  · rwa [heq]
  · rwa [heq]

end Failure

/-! ## Failures that are avoided -/

namespace Act

/-- The operation never ends with the failure. -/
def Avoids (e : Failure) (x : Act α) : Prop := ∀ h k, x h ≠ .error e k

namespace Avoids

variable {x : Act α} {f : α → Act β} {c : Act Unit}

/-- What is known of the failures of such an operation. -/
theorem leads (hx : Avoids e x) : Leads x h (fun _ _ => True) fun e' _ => e' ≠ e := by
  unfold Leads
  cases hxh : x h with
  | ok a k => trivial
  | error e' k =>
    rintro rfl
    exact hx h k hxh

/-- An operation that is known to fail otherwise from every heap. -/
theorem of_leads (hx : ∀ h, Leads x h (fun _ _ => True) fun e' _ => e' ≠ e) : Avoids e x :=
  fun h _ heq => (hx h).of_error heq rfl

theorem pure (a : α) : Avoids e (pure a : Act α) := .of_leads fun _ => trivial

theorem view (f : Heap → α) : Avoids e (view f) := .of_leads fun _ => trivial

theorem update (f : Heap → Heap) : Avoids e (update f) := .of_leads fun _ => trivial

theorem throw {e' : Failure} (he : e' ≠ e) : Avoids e (throw e' : Act α) := .of_leads fun _ => he

theorem fatal {c : Fatal} (hc : .fatal c ≠ e) : Avoids e (fatal c : Act α) := .of_leads fun _ => hc

theorem bind (hx : Avoids e x) (hf : ∀ a, Avoids e (f a)) : Avoids e (x >>= f) :=
  .of_leads fun _ => leads_bind.2 (hx.leads.imp fun a _ _ => (hf a).leads)

theorem discard (hx : Avoids e x) : Avoids e (discard x) :=
  .of_leads fun _ => leads_discard.2 (hx.leads.imp fun _ _ _ => trivial)

theorem ite {p : Prop} [Decidable p] {y : Act α} (hx : Avoids e x) (hy : Avoids e y) :
    Avoids e (if p then x else y) := by
  split
  · exact hx
  · exact hy

/-- A cleanup that avoids the failure does not make an operation end with it. -/
theorem ensuring (hx : Avoids e x) (hc : Avoids e c) : Avoids e (ensuring x c) :=
  .of_leads fun _ => leads_ensuring.2 (hx.leads.mono (fun _ _ _ => hc.leads)
    fun _ _ he => hc.leads.mono (fun _ _ _ => he) fun _ _ he' => Failure.andThen_ne he he')

/-- Neither does one that is only needed after a failure. -/
theorem onFailure (hx : Avoids e x) (hc : Avoids e c) : Avoids e (onFailure x c) :=
  .of_leads fun _ => leads_onFailure.2 (hx.leads.mono (fun _ _ _ => trivial)
    fun _ _ he => hc.leads.mono (fun _ _ _ => he) fun _ _ he' => Failure.andThen_ne he he')

/-- What ends with a failure that is not final, and that the cleanup avoids, has ended with it
before the cleanup, which returned. -/
theorem of_onFailure (hc : Avoids e c) (he : e.isFinal = false)
    (herror : HybridHeap.onFailure x c h = .error e k) :
    ∃ h₁, x h = .error e h₁ ∧ c h₁ = .ok () k := by
  obtain ⟨e₁, h₁, hx, ⟨hok, rfl⟩ | ⟨e₂, hfailed, hboth⟩⟩ := error_of_onFailure herror
  · exact ⟨h₁, hx, hok⟩
  · -- A failure of the cleanup would have come first.
    have he₂ : e₂ ≠ e := by
      rintro rfl
      exact hc h₁ k hfailed
    unfold Failure.andThen at hboth
    split at hboth
    · rename_i hfinal
      rw [hboth, he, Bool.false_and] at hfinal
      cases hfinal
    · exact absurd hboth he₂

theorem forM {f : α → Act PUnit} (hf : ∀ a, Avoids e (f a)) (l : List α) : Avoids e (l.forM f) := by
  induction l with
  | nil => exact pure _
  | cons a l ih => exact bind (hf a) fun _ => ih

end Avoids

end Act

open Act

/-! ## Operations that make no request -/

section

variable (he : e.isDenial = true)
include he

namespace Collector

theorem avoids_unqueue (n : NodeId) : Avoids e (unqueue n) :=
  .bind (.view _) fun _ => .ite (.update _)
    (.bind (.view _) fun _ => .fatal (Failure.ne_denial he rfl))

theorem avoids_increment (n : NodeId) : Avoids e (increment n) :=
  .bind (.view _) fun _ => .bind (.update _) fun _ => .ite (avoids_unqueue he n) (.pure _)

theorem avoids_decrement (n : NodeId) : Avoids e (decrement n) := by
  refine .bind (.view _) fun counted => ?_
  cases counted with
  | some _ => exact .bind (.update _) fun _ => .ite (.update _) (.pure _)
  | none => exact .bind (.view _) fun _ => .fatal (Failure.ne_denial he rfl)

omit he in
theorem avoids_makeMoribund (n : NodeId) : Avoids e (makeMoribund n) :=
  .bind (.view _) fun _ => .ite (.bind (.update _) fun _ => .update _) (.pure _)

theorem avoids_releaseAll (ns : List NodeId) : Avoids e (releaseAll ns) := by
  induction ns with
  | nil => exact .pure _
  | cons n ns ih => exact .ensuring (avoids_decrement he n) ih

theorem avoids_settle (dead : List Expired) : Avoids e (settle dead) := by
  induction dead with
  | nil => exact .pure _
  | cons x dead ih =>
    exact .bind (.onFailure (.forM (avoids_decrement he) _) (avoids_releaseAll he _)) fun _ =>
      .bind (.update _) fun _ => .bind (.update _) fun _ => ih

theorem avoids_expireEntries (p : Nat → WeakEntry → Bool) : Avoids e (expireEntries p) :=
  .bind (.view _) fun _ => .bind (.update _) fun _ => avoids_settle he _

theorem avoids_deallocate (n : NodeId) : Avoids e (deallocate n) := by
  refine .bind (.view _) fun _ => .bind (.view _) fun _ => .bind (.update _) fun _ =>
    .bind (.update _) fun _ => .bind (.view _) fun fault => ?_
  match fault with
  | none =>
    exact .bind (.update _) fun _ => .bind (.view _) fun _ =>
      .bind (.forM (fun _ => .update _) _) fun _ => .update _
  | some .redzoneDamaged => exact .fatal (Failure.ne_denial he rfl)
  | some .overflow => exact .throw (Failure.ne_denial he rfl)
  | some .overdrawn => exact .bind (.update _) fun _ => .throw (Failure.ne_denial he rfl)
  | some .unknownBlock => exact .update _

/-! What a destructor asks for is its own affair: where it avoids a denial, what runs it does so
too. -/

section

variable (hrun : ∀ program, Avoids e (run program))
include hrun

theorem avoids_dropPayload (n : NodeId) : Avoids e (dropPayload run n) := by
  have hdestructor : Avoids e (runDestructor run n) := by
    refine .bind (.view _) fun hook => ?_
    cases hook with
    | none => exact .pure _
    | some hook =>
      exact .bind (.update _) fun _ => .bind (.ensuring (hrun hook) (.update _)) fun _ => .update _
  have hrelease : Avoids e (releasePayload n) :=
    .bind (.view _) fun _ => .bind (.update _) fun _ => avoids_releaseAll he _
  exact .bind (.update _) fun _ =>
    .bind (.onFailure (.ensuring hdestructor hrelease) (.update _)) fun _ => .update _

theorem avoids_detach (n : NodeId) (status : Status) : Avoids e (detach run n status) :=
  .ite (.bind (.update _) fun _ => avoids_dropPayload he hrun n) (.pure _)

theorem avoids_dismantle (n : NodeId) : Avoids e (dismantle run n) := by
  refine .bind (.view _) fun status => ?_
  have hlast : Avoids e (do
      detach run n status
      Act.update fun h => { h with nodeCount := h.nodeCount - 1 }
      deallocate n) :=
    .bind (avoids_detach he hrun n status) fun _ =>
      .bind (.update _) fun _ => avoids_deallocate he n
  exact .ite (.bind (avoids_expireEntries he _) fun _ => hlast) hlast

theorem avoids_destroy (n : NodeId) : Avoids e (destroy run n) := by
  have hrest : Avoids e (do
      Act.update (·.modifyRings (·.unlink (.node n)))
      dismantle run n) := .bind (.update _) fun _ => avoids_dismantle he hrun n
  rw [destroy_eq]
  exact .bind (.view _) fun _ =>
    .ite (.bind (avoids_unqueue he n) fun _ => .bind (.update _) fun _ => hrest) hrest

theorem avoids_drain (fuel reclaimed : Nat) : Avoids e (drain run fuel reclaimed) := by
  induction fuel generalizing reclaimed with
  | zero => exact .throw (Failure.ne_denial he rfl)
  | succ fuel ih =>
    refine .bind (.view _) fun next => ?_
    cases next with
    | none => exact .pure _
    | some n =>
      exact .bind (.update _) fun _ => .bind (.update _) fun _ => .bind (.view _) fun _ =>
        .ite (.bind (avoids_destroy he hrun n) fun _ => ih _) (ih _)

theorem avoids_liteSweep (fuel : Nat) : Avoids e (liteSweep run fuel) := by
  refine .bind (.view _) fun _ => .ite (.pure _)
    (.bind (.update _) fun _ => .ensuring ?_ (.update _))
  exact .bind (.view _) fun _ => .bind (.forM (avoids_increment he) _) fun _ =>
    .bind (avoids_drain he hrun fuel 0) fun _ => .bind (.forM (avoids_decrement he) _) fun _ =>
    .bind (.update _) fun _ => .bind (.update _) fun _ => .bind (.update _) fun _ => .pure _

theorem avoids_sweepLive (fuel detached : Nat) : Avoids e (sweepLive run fuel detached) := by
  induction fuel generalizing detached with
  | zero => exact .throw (Failure.ne_denial he rfl)
  | succ fuel ih =>
    refine .bind (.view _) fun next => ?_
    cases next with
    | none => exact .pure _
    | some n =>
      exact .bind (.update _) fun _ => .bind (.view _) fun status =>
        .bind (avoids_detach he hrun n status) fun _ => .bind (.view _) fun _ =>
        .ite (.bind (avoids_makeMoribund n) fun _ => ih _) (ih _)

theorem avoids_markAndSweep (fuel : Nat) : Avoids e (markAndSweep run fuel) := by
  have hmark : Avoids e mark :=
    .bind (.of_leads fun _ => trivial) fun marked => .bind (avoids_expireEntries he _) fun _ =>
      .pure _
  have hsweep : Avoids e (sweep run fuel) :=
    .bind (avoids_sweepLive he hrun fuel 0) fun _ => .bind (.update _) fun _ => .pure _
  exact .bind (.update _) fun _ => .ensuring
    (.bind (.update _) fun _ => .bind hmark fun _ => .bind (.update _) fun _ =>
      .bind hsweep fun _ => .pure _) (.update _)

end

theorem avoids_retune : Avoids e retune := by
  refine .bind (.view _) fun _ => .bind (.view _) fun _ => .ite ?_ ?_
  · refine .bind (.view _) fun _ => .bind (.view _) fun _ => ?_
    split
    · exact .update _
    · exact .throw (Failure.ne_denial he rfl)
  · exact .bind (.view _) fun _ => .ite (.bind (.update _) fun _ => .update _) (.pure _)

/-- A full collection ends with a denial only if collections are held off when it is asked for. -/
theorem collect_ne_denial (hrun : ∀ program, Avoids e (run program))
    (hi : h.isInhibited = true → .fatal .inhibited ≠ e) : collect run fuel h ≠ .error e k := by
  have hmarkSweep : Leads (markSweep run fuel) { h with collecting := true } (fun _ _ => True)
      fun e' _ => e' ≠ e := by
    rw [markSweep_eq]
    simp only [leads_bind, leads_view]
    split
    · rename_i hheld
      simp only [leads_bind, leads_fatal]
      exact hi hheld
    · simp only [leads_bind, leads_pure]
      refine (avoids_markAndSweep he hrun fuel).leads.imp fun _ h₁ _ => ?_
      exact (avoids_liteSweep he hrun fuel).leads.imp fun _ h₂ _ => trivial
  have hcollect : Leads (collect run fuel) h (fun _ _ => True) fun e' _ => e' ≠ e := by
    unfold collect
    simp only [leads_bind, leads_view]
    split
    · trivial
    · simp only [leads_update, leads_ensuring, leads_bind, leads_view]
      refine hmarkSweep.mono (fun result h₁ _ => ?_) fun e _ he => he
      refine (avoids_retune he).leads.mono (fun _ h₂ _ => ?_) fun e _ he => he
      simp only [record, report, leads_update]
      split <;> trivial
  exact fun heq => hcollect.of_error heq rfl

/-- The collections that are due before an allocation are not denied for want of memory. -/
theorem avoids_collectIfDue (hrun : ∀ program, Avoids e (run program))
    (hne : .fatal .inhibited ≠ e) (fuel : Nat) : Avoids e (collectIfDue run fuel) := by
  have hcollect : Avoids e (collect run fuel) := fun _ _ => collect_ne_denial he hrun fun _ => hne
  have hfull : Avoids e (do if ← Act.view fullDue then discard <| collect run fuel) :=
    .bind (.view _) fun _ => .ite (.discard hcollect) (.pure _)
  refine .bind (.view _) fun _ => .ite (.bind (.view _) fun _ => .ite ?_ hfull) (.pure _)
  exact .bind (.discard (avoids_liteSweep he hrun fuel)) fun _ => hfull

omit he in
theorem avoids_install (n : NodeId) (base : Memory.Address) : Avoids e (install n base) :=
  .bind (.view _) fun _ => .bind (.update _) fun _ => .bind (.update _) fun _ =>
    .bind (.view _) fun _ => .bind (.view _) fun _ => .bind (.update _) fun _ =>
    .bind (.update _) fun _ => .bind (.update _) fun _ => .update _

end Collector

namespace Mutator

/-! ## The mutator's steps -/

/-- A program whose failures are answered is cut short by those only that are to do so. -/
theorem avoids_runNested {cuts : Failure → Bool} (hcuts : cuts e = false) (fuel depth : Nat)
    (program : Program) : Avoids e (runNested (.cutting cuts) fuel depth program) := by
  have hfuel : (e == .exhausted) = false := beq_false_of_ne (Failure.ne_denial he rfl).symm
  -- By induction on the depth, so that the programs that a step runs are covered when the step is.
  induction depth generalizing program with
  | zero => exact .throw (Failure.ne_denial he rfl)
  | succ depth ih =>
    have hanswer : ∀ step,
        Avoids e (answer (.cutting cuts) (runNested (.cutting cuts) fuel depth) fuel step) := by
      intro step
      refine .bind (.of_leads fun _ => trivial) fun _ => .bind (.view _) fun _ =>
        .bind (.update _) fun _ => .bind ?_ fun _ => .bind (.view _) fun _ =>
        .bind (.update _) fun _ => .pure _
      intro h k heq
      unfold replyOf at heq
      split at heq
      · cases heq
      · split at heq
        · rename_i hends
          cases heq
          simp [Terms.cutting, hcuts, hfuel] at hends
        · cases heq
    unfold runNested
    induction program with
    | nil => exact .pure _
    | cons step program ihp =>
      rw [List.mapM_cons]
      exact .bind (hanswer step) fun _ => .bind ihp fun _ => .pure _

theorem avoids_require (p : Heap → Bool) : Avoids e (require p) :=
  .bind (.view _) fun _ => .ite (.throw (Failure.ne_denial he rfl)) (.pure _)

theorem avoids_requireForm (form : AllocForm) : Avoids e (requireForm form) := by
  cases form with
  | bare => exact .pure _
  | root name => exact avoids_require he _
  | stackRoot name => exact .bind (avoids_require he _) fun _ => avoids_require he _
  | edge name => exact avoids_require he _

theorem avoids_requireKids (kind : Kind) (kids : List NodeId) :
    Avoids e (requireKids kind kids) := by
  have hlinks : Avoids e (if kind = .link then
      kids.forM fun kid => require fun h => h.kind kid == .link else pure ()) :=
    .ite (.forM (fun _ => avoids_require he _) _) (.pure _)
  exact .bind (.forM (fun _ => avoids_require he _) _) fun _ =>
    .ite (.bind (.throw (Failure.ne_denial he rfl)) fun _ => hlinks) hlinks

theorem avoids_keepAs (n : NodeId) (form : AllocForm) : Avoids e (keepAs n form) := by
  cases form with
  | bare => exact .pure _
  | root name =>
    exact .bind (.bind (avoids_increment he n) fun _ => .bind (.view _) fun _ =>
      .bind (.update _) fun _ => .pure _) fun _ => .update _
  | stackRoot name =>
    exact .bind (.bind (.view _) fun _ => .bind (.update _) fun _ => .pure _) fun _ => .update _
  | edge name => exact .bind (avoids_increment he n) fun _ => .update _

end Mutator

end

end HybridHeap
