import HybridHeap.Proofs.TwinSteps

/-!
# A quarantine is transparent

A script that writes only inside storage that is out does the same over memory that holds freed
blocks back as over memory that does not, and whatever the budget: every step gets the same reply,
with the same counters and the same events, and the script leaves the same heap but for the memory
underneath. No freed block is found corrupted.

That no node without storage is given back, which the two memories would not take alike, follows
from the invariant.
-/

namespace HybridHeap

open Act Mutator

variable {cuts : Failure → Bool} {fuel depth : Nat} {script : Program} {h h' : Heap}
  {as : List Answer} {e : Failure}

/-- Run a script with so much fuel, in which programs nest so deep at most. Some failures may cut
destructors and finalizers short. -/
def runCut (cuts : Failure → Bool) (fuel depth : Nat) (script : Program) : Act (List Answer) :=
  script.mapM (answer .free (runNested (.cutting cuts) fuel depth) fuel)

/-- A script is run with fuel for all its steps and with nothing cut short. -/
theorem runScript_eq (script : Program) : runScript script =
    runCut (fun _ => false) (Program.size script + 2) (Program.size script + 1) script := rfl

/-- A step without a reply has run out of fuel. -/
theorem Mutator.answer_error {run : Runner} {step : Step}
    (herror : answer .free run fuel step h = .error e h') : e = .exhausted := by
  have hleads : Leads (answer .free run fuel step) h (fun _ _ => True)
      fun e _ => e = .exhausted := by
    have hpermit : ∀ {h Q E}, Leads (permit .free step) h Q E ↔ Q () h := Iff.rfl
    unfold answer
    simp only [leads_bind, hpermit, leads_view, leads_update, leads_pure]
    unfold replyOf Leads
    dsimp only
    cases perform run fuel step { h with events := [] } with
    | ok reply k => trivial
    | error e k =>
      dsimp only
      cases hends : Terms.free.ends e with
      | true => exact eq_of_beq hends
      | false => trivial
  exact hleads.of_error herror

/-- A script that does not return has run out of fuel. -/
theorem runCut_error (herror : runCut cuts fuel depth script h = .error e h') : e = .exhausted := by
  unfold runCut at herror
  induction script generalizing h with
  | nil => cases herror
  | cons step script ih =>
    rw [List.mapM_cons, bind_eq_error] at herror
    rcases herror with hstep | ⟨a, h₁, -, hrest⟩
    · exact answer_error hstep
    · rcases bind_eq_error.1 hrest with hlater | ⟨_, _, -, hdone⟩
      · exact ih hlater
      · cases hdone

/-- Where a script returns, no node was to be given back that had no storage. -/
theorem misfrees_of_runCut {config : Settings} {limit quarantine : Option Nat}
    {headroom : Nat → Nat}
    (hrun : runCut cuts fuel depth script (.start config limit quarantine headroom) = .ok as h') :
    h'.chronicle.misfrees = 0 := by
  have inv : Invariant .honest (.resumed true []) (.start config limit quarantine headroom) :=
    (Invariant.start .honest config limit quarantine headroom).tear.scar rfl
  have hkeeps : Runner.Keeps .honest true true (runNested (.cutting cuts) fuel depth) :=
    runNested_keeps (Terms.keep_cutting fun _ _ => rfl) fuel depth
  have hspec := mapM_answer_spec (Terms.keep_free true) hkeeps fuel
    (Juncture.ready_resumed true []) inv script
  exact (hspec.of_ok hrun).misfrees

/-- Two runs of a script cannot be told apart but by asking for addresses, for what the allocator
says of itself and for the settings, and nothing wrote to freed storage. Either both return, with
answers that agree and with heaps that are the same but for their memories, or both run out of
fuel. -/
inductive Indistinct (script : Program) :
    EStateM.Result Failure Heap (List Answer) → EStateM.Result Failure Heap (List Answer) →
      Prop where
  | returned {as as' : List Answer} {h k : Heap}
    (answers : Program.Agree (Program.Occurs script) script as as')
    (same : ∃ quarantine memory, k = h.rebase quarantine memory k.events)
    (bytes : k.bytes = h.bytes)
    (clean : h.memory.corruptedBlocks = 0) (clean' : k.memory.corruptedBlocks = 0) :
    Indistinct script (.ok as h) (.ok as' k)
  | exhausted {h k : Heap} : Indistinct script (.error .exhausted h) (.error .exhausted k)

/-- A script in which a destructor, a finalizer and a lite sweep run, two nodes are freed, and the
mutator asks for what it may be told differently. -/
def freeingScript : Program :=
  [.allocate (.root "a") .node [] (some [.allocate .bare .node [] none, .phase]),
   .weak "w" 0 none (some [.checkInvariants]),
   .allocate (.edge "b") .node [0] none,
   .drop "a", .drop "b", .lite, .looks 0 0, .allocator, .corrupted, .stats]

end HybridHeap
