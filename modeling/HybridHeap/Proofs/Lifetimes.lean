import HybridHeap.Proofs.Safety

/-!
# What befalls a node

A mutator may go on after a fatal error: the error is the reply to the step that failed, and the
heap stays as the failure left it. Destructors and finalizers may answer a failure in the same way,
or be cut short by it: then it unwinds through whatever is under way, to the mutator's own step. The
heaps that are reached in such runs are those of `Ran`. References may be counted in them that
nobody holds any more, and marks may be out of step after a sweep was cut short, but all that the
history of a node depends on is kept: its payload is dropped once at most, and its storage goes back
once at most, after that.
-/

namespace HybridHeap

/-- Between the steps of a mutator that goes on after fatal errors, with the holds it has open. -/
def Juncture.resumed (scarred : Bool) (held : List (NodeId × Nat)) : Juncture :=
  { Juncture.rest with rooted := held, torn := true, scarred }

theorem Juncture.ready_resumed (scarred : Bool) (held : List (NodeId × Nat)) :
    (resumed scarred held).Ready where
  idle := fun _ => ⟨rfl, (fun _ hn => by cases hn), rfl, rfl, rfl, rfl⟩
  calm := fun _ _ => rfl
  alone := fun _ => rfl
  swept := fun _ => rfl
  collected := fun _ => rfl
  dying := fun _ _ hw => by cases hw
  still := fun _ => ⟨rfl, rfl, rfl⟩
  sweeping := fun hne => absurd rfl hne
  parting := rfl

namespace Mutator

open Collector Act

variable {law : Law} {w : Juncture} {h h' : Heap} {n : NodeId} {held : List (NodeId × Nat)}

/-! ## Holds in two parts -/

/-- Begin to hold a node: put a root on it and borrow its payload. The result is the slot of the
root. -/
def beginHold (n : NodeId) : Act Nat := do
  requireReferable n
  let slot ← newRoot n
  requireAttached n
  if (← Act.view fun h => (h.kind n).cellName?).isNone then refuse
  discard <| borrow n
  change n fun p => { p with borrowed := true }
  return slot

/-- Hold a node no longer. -/
def endHold (n : NodeId) (slot : Nat) : Act Unit := do
  change n fun p => { p with borrowed := false }
  dropRoot n slot

/-- Holding a node while a body runs that returns is to begin, run the body, and end. -/
theorem holding_of_ok {α : Type} {body : Act α} {slot : Nat} {a : α} {h₁ h₂ h₃ : Heap}
    (hbegin : beginHold n h = .ok slot h₁) (hbody : body h₁ = .ok a h₂)
    (hend : endHold n slot h₂ = .ok () h₃) :
    (do requireReferable n; holding n body) h = .ok a h₃ := by
  unfold beginHold at hbegin
  unfold endHold at hend
  unfold holding
  simp only [bind_eq_ok] at hbegin hend ⊢
  obtain ⟨_, k₁, hreferable, slot', k₂, hroot, _, k₃, hattached, cell, k₄, hcell, hrest⟩ := hbegin
  obtain ⟨_, k₇, hrelease, hdrop⟩ := hend
  refine ⟨_, k₁, hreferable, slot', k₂, hroot, ?_⟩
  split at hrest
  · cases hrest
  · rename_i hcellName
    simp only [bind_eq_ok] at hrest
    obtain ⟨_, k₅, hborrow, _, k₆, hchange, hslot⟩ := hrest
    cases hslot
    refine ensuring_of_ok _ ?_ hdrop
    simp only [bind_eq_ok]
    refine ⟨_, k₃, hattached, cell, k₄, hcell, ?_⟩
    rw [if_neg hcellName]
    simp only [bind_eq_ok]
    exact ⟨_, k₅, hborrow, _, _, hchange, ensuring_of_ok _ hbody hrelease⟩

/-- Beginning to hold a node leaves the root that holds it in hand. -/
theorem beginHold_spec (hready : w.Ready) (inv : Invariant law w h) :
    Leads (beginHold n) h
      (fun slot => Invariant law { w with rooted := (n, slot) :: w.rooted }) fun _ _ => True := by
  have hfail : ∀ {v : Juncture} (e : Failure) (k : Heap),
      Failed (Invariant law v) v.torn e k → True := fun _ _ _ => trivial
  unfold beginHold
  simp only [leads_bind]
  refine (require_spec inv fun hn => ?_).mono (fun _ _ hpost => hpost) hfail
  have hreferable := inv.referable hready hn
  refine (newRoot_spec inv hreferable).leads fun slot h₁ inv₁ => ?_
  have hset : Invariant law { w with rooted := (n, slot) :: w.rooted }
      (h₁.modifyPayload n fun p => { p with borrowed := true }) :=
    inv₁.change_of_allEdges_eq (inv.not_mem_building hreferable.allocated) fun _ => rfl
  refine (requireAttached_spec inv₁ ?_).mono (fun _ _ hpost => hpost) hfail
  simp only [leads_view]
  split
  · trivial
  · simp only [leads_bind, leads_discard, leads_change, leads_pure]
    exact (borrow_spec inv₁ fun _ _ => hset).mono (fun _ _ hpost => hpost) hfail

/-- Ending a hold drops the root that holds the node. -/
theorem endHold_spec {slot : Nat} (hn : n ∉ w.building)
    (inv : Invariant law { w with rooted := (n, slot) :: w.rooted } h) :
    Returns (endHold n slot) h fun _ => Invariant law w := by
  unfold endHold
  simp only [Returns, leads_bind, leads_change]
  exact dropRoot_spec (inv.change_of_allEdges_eq hn fun _ => rfl)

/-! ## Going on after fatal errors -/

/-- The terms of a destructor or finalizer that some failures cut short. Any step may be performed,
and any other failure is a reply. -/
def Terms.cutting (cuts : Failure → Bool) : Terms :=
  { objection := fun _ _ => none, ends := fun e => cuts e || e == .exhausted }

/-- Whatever may cut destructors short, they keep the law in a heap that this may tear and scar. -/
theorem Terms.keep_cutting {cuts : Failure → Bool} {scarred : Bool}
    (hcuts : ∀ e, cuts e = true → scarred = true) :
    (Terms.cutting cuts).Keep .honest true scarred where
  allowed := fun _ _ step _ _ _ _ _ => by
    cases step with
    | underflow n => exact .inl ⟨rfl, n, rfl⟩
    | _ => exact .inr rfl
  final := fun _ _ _ _ _ _ _ _ hsome => by cases hsome
  ends := fun e he => Bool.or_eq_true_iff.2 (.inr he)
  cuts := fun e he hf => ⟨rfl, (Bool.or_eq_true_iff.1 he).elim (hcuts e) fun hfuel => by
    rw [show (e == .exhausted) = false from hf] at hfuel
    cases hfuel⟩

/-- A mutator that answers every failure keeps the law. -/
theorem Terms.keep_free (scarred : Bool) : Terms.free.Keep .honest true scarred :=
  @Terms.keep_cutting (fun _ => false) scarred fun _ he => by cases he

/-- The heaps that a mutator reaches that goes on after fatal errors, whatever the settings, the
memory and the clock, with the holds it has open, the innermost first. Some failures may cut
destructors and finalizers short. Between its steps the mutator may begin a hold, end the innermost
one, or take up the next finalizer, whose steps are then its own. -/
inductive Ran (cuts : Failure → Bool) : List (NodeId × Nat) → Heap → Prop where
  | start (config : Settings) (limit quarantine : Option Nat) (headroom : Nat → Nat) :
    Ran cuts [] (Heap.start config limit quarantine headroom)
  | step {held : List (NodeId × Nat)} {h h' : Heap} {fuel depth : Nat} {step : Step} {a : Answer}
    (hr : Ran cuts held h)
    (hstep : answer .free (runNested (.cutting cuts) fuel depth) fuel step h = .ok a h') :
    Ran cuts held h'
  | hold {held : List (NodeId × Nat)} {h h' : Heap} {n : NodeId} {slot : Nat}
    (hr : Ran cuts held h) (hbegin : beginHold n h = .ok slot h') : Ran cuts ((n, slot) :: held) h'
  | release {held : List (NodeId × Nat)} {h h' : Heap} {n : NodeId} {slot : Nat}
    (hr : Ran cuts ((n, slot) :: held) h) (hend : endHold n slot h = .ok () h') : Ran cuts held h'
  | finalizer {held : List (NodeId × Nat)} {h : Heap} (hr : Ran cuts held h) :
    Ran cuts held { h with pending := h.pending.tail }

variable {cuts : Failure → Bool}

/-- Every heap that is reached satisfies the invariant, but for what a fatal error may tear and
what a failure that cuts destructors short may scar. -/
theorem Ran.invariant {scarred : Bool} (hr : Ran cuts held h)
    (hcuts : ∀ e, cuts e = true → scarred = true) :
    Invariant .honest (.resumed scarred held) h := by
  -- One case for each way a run goes on. Destructors that are cut short are why the heap may be
  -- scarred, and fatal errors are why it may be torn.
  induction hr with
  | start config limit quarantine headroom =>
    have inv := (Invariant.start .honest config limit quarantine headroom).tear
    cases scarred with
    | false => exact inv
    | true => exact inv.scar rfl
  | @step held h h' fuel depth step a _ hstep inv =>
    have hanswer := answer_spec (Terms.keep_free scarred)
      (runNested_keeps (Terms.keep_cutting hcuts) fuel depth) fuel
      (Juncture.ready_resumed scarred held) inv step
    exact hanswer.of_ok hstep
  | @hold held h h' n slot _ hbegin inv =>
    have hhold := beginHold_spec (n := n) (Juncture.ready_resumed scarred held) inv
    exact hhold.of_ok hbegin
  | @release held h h' n slot _ hend inv =>
    have hhold := endHold_spec (w := .resumed scarred held) List.not_mem_nil inv
    exact hhold.of_ok hend
  | finalizer _ inv => exact { inv with ledger := fun hw => by cases hw.1 }

/-- Unless destructors are cut short nothing is scarred. -/
theorem Ran.unscarred (hr : Ran (fun _ => false) held h) :
    Invariant .honest (.resumed false held) h :=
  hr.invariant fun _ he => by cases he

/-- A program that returns leads from a heap that is reached to another. -/
theorem Ran.mapM_answer {fuel depth : Nat} {program : Program} {as : List Answer}
    (hr : Ran cuts held h)
    (hrun : program.mapM (answer .free (runNested (.cutting cuts) fuel depth) fuel) h =
      .ok as h') : Ran cuts held h' :=
  mapM_answer_preserves (P := Ran cuts held) (fun hr hstep => hr.step hstep) hr hrun

/-- The heap to which a program leads from the start with the standard settings, each of its steps
being answered whatever happens, and its destructors and finalizers being cut short by some
failures. -/
def resume (cuts : Failure → Bool) (program : Program) : Option Heap :=
  let fuel := Program.size program + 2
  match program.mapM (answer .free (runNested (.cutting cuts) fuel fuel) fuel)
      (.start .standard none none fun _ => 0) with
  | .ok _ h => some h
  | .error _ _ => none

/-- Where a program leads that goes on after fatal errors is reached. -/
theorem ran_of_resume {program : Program} (hresume : resume cuts program = some h) :
    Ran cuts [] h := by
  unfold resume at hresume
  dsimp only at hresume
  split at hresume
  · rename_i hrun
    cases hresume
    exact (Ran.start _ _ _ _).mapM_answer hrun
  · cases hresume

/-! ## The order of events -/

/-- The payload of a node is dropped once at most and its storage goes back once at most, and not
before the destructor of the payload has ended. It ends by returning, unless there are failures that
cut destructors short. -/
theorem fates_prefix (hr : Ran cuts held h) (n : NodeId) :
    ∃ last, h.fates n <+: [.started, last, .freed] ∧
      (last = .returned ∨ last = .unwound ∧ ∃ e, cuts e = true) := by
  by_cases hcuts : ∃ e, cuts e = true
  · have inv : Invariant .honest (.resumed true held) h := hr.invariant fun _ _ => rfl
    obtain ⟨last, hlast, ht⟩ := inv.timely n List.not_mem_nil
    exact ⟨last, ht.ordered, hlast.imp_right fun hunwound => ⟨hunwound.2, hcuts⟩⟩
  · have inv : Invariant .honest (.resumed false held) h :=
      hr.invariant fun e he => absurd ⟨e, he⟩ hcuts
    obtain ⟨last, hlast, ht⟩ := inv.timely n List.not_mem_nil
    exact ⟨last, ht.ordered, .inl (hlast.resolve_right fun hunwound => by cases hunwound.1)⟩

/-- In a run in which a fatal error cuts short the destructor of the one node of a cycle, and not
that of the other, which asks for a collection, both nodes are dropped and freed once. -/
theorem fates_prefix_cycle :
    ∃ h, Ran Failure.isFinal [] h ∧ h.fates 0 = [.started, .unwound, .freed] ∧
      h.fates 1 = [.started, .returned, .freed] ∧
      ∀ n, ∃ last, h.fates n <+: [.started, last, .freed] ∧
        (last = .returned ∨ last = .unwound ∧ ∃ e : Failure, e.isFinal = true) := by
  have hresume : ((resume Failure.isFinal [
      .allocate (.root "a") .node [] (some [.full, .allocate .bare .overaligned [] none]),
      .allocate (.root "b") .node [0] (some [.lite]), .link 0 1 false false,
      .weak "w" 0 none (some [.full]), .drop "a", .drop "b", .full, .full]).any
        fun h => h.fates 0 = [.started, .unwound, .freed] ∧
          h.fates 1 = [.started, .returned, .freed]) = true := by
    decide +kernel
  obtain ⟨h, hh, hfates⟩ := (Option.any_eq_true _ _).1 hresume
  obtain ⟨hunwound, hreturned⟩ := of_decide_eq_true hfates
  have hr : Ran Failure.isFinal [] h := ran_of_resume hh
  exact ⟨h, hr, hunwound, hreturned, fates_prefix hr⟩

/-- A destructor that a fatal error cuts short in the sweep leaves a node whose storage goes back
when the last reference to it goes. -/
theorem freed_after_unwinding :
    ∃ h, Ran Failure.isFinal [] h ∧ h.fates 0 = [.started, .unwound, .freed] := by
  have hresume : ((resume Failure.isFinal [
      .allocate (.root "a") .node [] (some [.allocate .bare .overaligned [] none]),
      .allocate (.root "b") .node [0] none, .link 0 1 false false, .drop "a", .drop "b",
      .full, .lite]).any fun h => h.fates 0 = [.started, .unwound, .freed]) = true := by
    decide +kernel
  obtain ⟨h, hh, hfates⟩ := (Option.any_eq_true _ _).1 hresume
  exact ⟨h, ran_of_resume hh, of_decide_eq_true hfates⟩

end Mutator

end HybridHeap
