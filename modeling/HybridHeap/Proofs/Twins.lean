import HybridHeap.Proofs.Allocating
import HybridHeap.Proofs.CleanMemory

/-!
# Two heaps over different memories

Two heaps are twins if they are the same but for the memory underneath them: the one may hold freed
blocks back and the other not. Their memories have handed out as many blocks and have as many bytes
outstanding. What a mutator sees of them is the same too, unless it asks for addresses, for what the
allocator says of itself, or for the settings; what it was answered by the one agrees with what it
was answered by the other.

`Act.Alike` says that two operations lead from twins to twins, with results that agree. There is one
rule for each way of building an operation. Where a node is given back that has no storage, nothing
more can be said of the two heaps. The chronicles tell if that has happened, and the invariant rules
it out, so that it is not needed to show that operations are alike.
-/

namespace HybridHeap

/-! ## Programs -/

/-- The programs that come with a step. -/
def Step.programs : Step → List Program
  | .allocate _ _ _ hook => hook.toList
  | .hold _ body => [body]
  | .weak _ _ _ finalizer => finalizer.toList
  | _ => []

/-- The program is the script or comes with a step of one that occurs in it. -/
inductive Program.Occurs (script : Program) : Program → Prop where
  | whole : Occurs script script
  | inside {program inner : Program} {step : Step} (ho : Occurs script program)
    (hstep : step ∈ program) (hinner : inner ∈ step.programs) : Occurs script inner

/-! ## Answers that agree -/

mutual

/-- Two answers to a step agree: they have the same counters after it, their replies and the events
on the way agree, and destructors and finalizers run programs of which `P` holds. -/
inductive Answer.Agree (P : Program → Prop) : Step → Answer → Answer → Prop where
  | mk {step : Step} {r r' : Reply} {summary : Summary} {es es' : List Event}
    (hreply : Reply.Agree P step r r') (hevents : Event.AllAgree P es es') :
    Answer.Agree P step (.mk r summary es) (.mk r' summary es')

/-- Two replies to a step agree: they are the same, unless the step asks whether an address looks
like a node, for what the allocator says of itself, or for the settings. -/
inductive Reply.Agree (P : Program → Prop) : Step → Reply → Reply → Prop where
  | same {step : Step} (r : Reply) : Reply.Agree P step r r
  | looks {n : NodeId} {offset : Int} (m m' : Option NodeId) :
    Reply.Agree P (.looks n offset) (.nodeOrNone m) (.nodeOrNone m')
  | looksAt {address : Memory.Address} (m m' : Option NodeId) :
    Reply.Agree P (.looksAt address) (.nodeOrNone m) (.nodeOrNone m')
  | allocator (view view' : AllocatorView) :
    Reply.Agree P .allocator (.allocator view) (.allocator view')
  | settings (config : Settings) (quarantine : Option Nat) :
    Reply.Agree P .settings (.settings config) (.settings { config with quarantine })
  | body {n : NodeId} {body : Program} {as as' : List Answer}
    (hbody : Program.Agree P body as as') :
    Reply.Agree P (.hold n body) (.answers as) (.answers as')

/-- The answers to the steps of a program agree one by one. -/
inductive Program.Agree (P : Program → Prop) : Program → List Answer → List Answer → Prop where
  | nil : Program.Agree P [] [] []
  | cons {step : Step} {program : Program} {a a' : Answer} {as as' : List Answer}
    (hstep : Answer.Agree P step a a') (hprogram : Program.Agree P program as as') :
    Program.Agree P (step :: program) (a :: as) (a' :: as')

/-- Two events agree: they are the same, unless a program has run, whose answers agree. -/
inductive Event.Agree (P : Program → Prop) : Event → Event → Prop where
  | same (e : Event) : Event.Agree P e e
  | destructor {n : NodeId} {program : Program} {as as' : List Answer} (hP : P program)
    (hprogram : Program.Agree P program as as') :
    Event.Agree P (.destructor n as) (.destructor n as')
  | finalizer {name : HandleName} {program : Program} {as as' : List Answer} (hP : P program)
    (hprogram : Program.Agree P program as as') :
    Event.Agree P (.finalizer name as) (.finalizer name as')

/-- Events agree one by one. -/
inductive Event.AllAgree (P : Program → Prop) : List Event → List Event → Prop where
  | nil : Event.AllAgree P [] []
  | cons {e e' : Event} {es es' : List Event} (he : Event.Agree P e e')
    (hes : Event.AllAgree P es es') : Event.AllAgree P (e :: es) (e' :: es')

end

/-- Events agree with themselves. -/
theorem Event.AllAgree.refl {P : Program → Prop} (es : List Event) : Event.AllAgree P es es := by
  induction es with
  | nil => exact .nil
  | cons e es ih => exact .cons (.same e) ih

/-- Events that agree do so in any order. -/
theorem Event.AllAgree.reverse {P : Program → Prop} {es es' : List Event}
    (hes : Event.AllAgree P es es') : Event.AllAgree P es.reverse es'.reverse := by
  have happend : ∀ {l l' : List Event}, Event.AllAgree P l l' → ∀ {k k' : List Event},
      Event.AllAgree P k k' → Event.AllAgree P (l.reverse ++ k) (l'.reverse ++ k') := by
    intro l
    induction l with
    | nil =>
      rintro _ ⟨⟩ k k' hk
      exact hk
    | cons e l ih =>
      rintro _ ⟨⟩ k k' hk
      rename_i e' l' he hl
      rw [List.reverse_cons, List.reverse_cons, List.append_assoc, List.append_assoc]
      exact ih hl (.cons he hk)
  simpa using happend hes .nil

/-! ## Twins -/

/-- Where a node lives. -/
def Node.home (node : Node) : Kind × Memory.BlockId × Stage := (node.kind, node.block, node.stage)

namespace Heap

/-- The heap over another memory, with another quarantine in its settings and other events. -/
def rebase (h : Heap) (quarantine : Option Nat) (memory : Memory.Allocator) (events : List Event) :
    Heap :=
  { h with config := { h.config with quarantine }, memory, events }

/-- What is shown of a heap does not depend on its memory. -/
def Oblivious {α : Type} (f : Heap → α) : Prop :=
  (fun h quarantine memory events => f (rebase h quarantine memory events)) = fun h _ _ _ => f h

/-- The memory has no limit and nothing wrote to it; it is storage for the nodes, each of which has
a block of its own, and at least their bytes are outstanding. -/
structure Housed (h : Heap) : Prop where
  unlimited : h.memory.store.limit = none
  clean : h.memory.Clean
  sound : h.memory.Sound
  backed : ∀ n, h.isAllocated n = true → h.memory.Backs true (h.block n) (h.kind n).size
  apart : ∀ m n, h.isAllocated m = true → h.isAllocated n = true → h.block m = h.block n → m = n
  paid : h.storageBytes ≤ h.bytes

/-- Of every program that destructors and finalizers may run, `P` holds. -/
structure Runs (P : Program → Prop) (h : Heap) : Prop where
  hooks : ∀ n p program, h.payload? n = some p → p.hook = some program → P program
  finalizers : ∀ e ∈ h.roots.weak.toList, ∀ f, e.finalizer = some f → P f.program
  pending : ∀ f ∈ h.pending, P f.program

variable {h h' : Heap}

/-- What does not depend on the memory is the same over any other. -/
theorem Oblivious.eq {α : Type} {f : Heap → α} (hf : Oblivious f) (h : Heap)
    (quarantine : Option Nat) (memory : Memory.Allocator) (events : List Event) :
    f (h.rebase quarantine memory events) = f h :=
  congrFun (congrFun (congrFun (congrFun hf h) quarantine) memory) events

/-- What depends on where a node lives is the same in heaps in which it lives in the same place. -/
theorem map_home {α : Type} (hhomes : h'.nodes.map Node.home = h.nodes.map Node.home)
    (p : Kind × Memory.BlockId × Stage → α) (n : NodeId) :
    h'.nodes[n]?.map (p ∘ Node.home) = h.nodes[n]?.map (p ∘ Node.home) := by
  have hhome := congrArg (·[n]?) hhomes
  simp only [Array.getElem?_map] at hhome
  rw [← Option.map_map, hhome, Option.map_map]

/-- Only where nodes live matters for what storage they have. -/
theorem Housed.congr (hh : h.Housed) (hmemory : h'.memory = h.memory)
    (hhomes : h'.nodes.map Node.home = h.nodes.map Node.home) : h'.Housed := by
  have halloc : h'.isAllocated = h.isAllocated := funext fun n =>
    congrArg (fun s => Option.getD s .unborn == Stage.allocated) (map_home hhomes (·.2.2) n)
  have hblock : h'.block = h.block := funext fun n =>
    congrArg (Option.getD · 0) (map_home hhomes (·.2.1) n)
  have hkind : h'.kind = h.kind := funext fun n =>
    congrArg (Option.getD · Kind.empty) (map_home hhomes (·.1) n)
  have hbytes : h'.storageBytes = h.storageBytes := by
    have hsum : ∀ nodes : Array Node,
        (nodes.toList.map fun node => if node.stage = .allocated then node.kind.size else 0) =
          (nodes.map Node.home).toList.map fun x => if x.2.2 = .allocated then x.1.size else 0 := by
      intro nodes
      rw [Array.toList_map, List.map_map]
      rfl
    unfold storageBytes
    rw [hsum, hsum, hhomes]
  constructor
  · rw [hmemory]
    exact hh.unlimited
  · rw [hmemory]
    exact hh.clean
  · rw [hmemory]
    exact hh.sound
  · rw [halloc, hmemory, hblock, hkind]
    exact hh.backed
  · rw [halloc, hblock]
    exact hh.apart
  · unfold bytes
    rw [hbytes, hmemory]
    exact hh.paid

/-- A change of a node that leaves it where it lives. -/
theorem homes_modifyNode {f : Node → Node} (hf : ∀ node, (f node).home = node.home) (h : Heap)
    (n : NodeId) : (h.modifyNode n f).nodes.map Node.home = h.nodes.map Node.home := by
  refine Array.ext_getElem? fun m => ?_
  rw [Array.getElem?_map, Array.getElem?_map]
  exact map_modifyNode hf h n m

/-- A change of a node that leaves its payload or takes it away. -/
theorem Runs.modifyNode {P : Program → Prop} (hr : h.Runs P) {f : Node → Node}
    (hf : ∀ node p, (f node).payload = some p → ∃ q, node.payload = some q ∧ p.hook = q.hook)
    (n : NodeId) : (h.modifyNode n f).Runs P :=
  { hr with
    hooks := fun m p program hp hhook => by
      unfold payload? at hp
      rw [getElem?_modifyNode] at hp
      split_ifs at hp
      · rw [Option.bind_map] at hp
        obtain ⟨node, hnode, hpayload⟩ := Option.bind_eq_some_iff.1 hp
        obtain ⟨q, hq, heq⟩ := hf node p hpayload
        refine hr.hooks m q program ?_ (heq ▸ hhook)
        unfold payload?
        rw [hnode]
        exact hq
      · exact hr.hooks m p program hp hhook }

end Heap

/-- The heaps are the same but for their memories and for what shows of these. -/
structure Twins (P : Program → Prop) (h k : Heap) : Prop where
  same : ∃ quarantine memory events, k = h.rebase quarantine memory events
  bytes : k.bytes = h.bytes
  blocks : k.memory.store.blocks.size = h.memory.store.blocks.size
  left : h.Housed
  right : k.Housed
  events : Event.AllAgree P h.events k.events
  runs : h.Runs P

/-- Heaps that differ in their memories only are twins at the start. -/
theorem Twins.start (P : Program → Prop) (config : Settings) (quarantine quarantine' : Option Nat)
    (headroom : Nat → Nat) :
    Twins P (.start { config with quarantine } none quarantine headroom)
      (.start { config with quarantine := quarantine' } none quarantine' headroom) := by
  have hbytes : ∀ quarantine : Option Nat,
      (Memory.Allocator.new none quarantine).assistOnly.bytesAllocated = 0 := fun quarantine => by
    cases quarantine <;> rfl
  have hblocks : ∀ quarantine : Option Nat,
      (Memory.Allocator.new none quarantine).assistOnly.store.blocks.size = 0 :=
    fun quarantine => by cases quarantine <;> rfl
  have hhoused : ∀ quarantine : Option Nat,
      (Heap.start { config with quarantine } none quarantine headroom).Housed := by
    intro quarantine
    constructor
    · cases quarantine <;> rfl
    · exact (Memory.Allocator.clean_new none quarantine).assistOnly
    · exact (Memory.Allocator.sound_new none quarantine).assistOnly
    · exact fun n hn => by cases hn
    · exact fun m n hm => by cases hm
    · exact Nat.zero_le _
  exact
    { same := ⟨_, _, _, rfl⟩
      bytes := (hbytes quarantine').trans (hbytes quarantine).symm
      blocks := (hblocks quarantine').trans (hblocks quarantine).symm
      left := hhoused quarantine
      right := hhoused quarantine'
      events := .nil
      runs := ⟨fun n p program hp => (by cases hp), fun e he => (by cases he),
        fun f hf => (by cases hf)⟩ }

/-! ### Changes of twins -/

/-- A change of the heap that has nothing to do with what twins differ in. It does the same whatever
the memory underneath, moves no node and brings in no program of which `P` does not hold. -/
structure Discreet (P : Program → Prop) (g : Heap → Heap) : Prop where
  rebase : ∀ h quarantine memory events,
    g (h.rebase quarantine memory events) = (g h).rebase quarantine memory events
  homes : ∀ h, (g h).nodes.map Node.home = h.nodes.map Node.home
  runs : ∀ h, h.Runs P → (g h).Runs P
  misfrees : ∀ h, (g h).chronicle.misfrees = h.chronicle.misfrees
  trespasses : ∀ h, (g h).chronicle.trespasses = h.chronicle.trespasses

namespace Discreet

variable {P : Program → Prop} {g g' : Heap → Heap}

/-- A change is discreet that depends on neither the memory nor the events, leaves the nodes and what
the chronicle says of misuse, and brings in no program of which `P` does not hold. -/
theorem of_runs
    (hrebase : (fun h quarantine memory events => g (Heap.rebase h quarantine memory events)) =
      fun h quarantine memory events => (g h).rebase quarantine memory events)
    (hparts : (fun h => ((g h).nodes, (g h).chronicle.misfrees, (g h).chronicle.trespasses)) =
      fun h => (h.nodes, h.chronicle.misfrees, h.chronicle.trespasses))
    (hruns : ∀ h, h.Runs P → (g h).Runs P) : Discreet P g := by
  have heq := fun h => congrFun hparts h
  simp only [Prod.mk.injEq] at heq
  exact
    { rebase := fun h quarantine memory events =>
        congrFun (congrFun (congrFun (congrFun hrebase h) quarantine) memory) events
      homes := fun h => by rw [(heq h).1]
      runs := hruns
      misfrees := fun h => (heq h).2.1
      trespasses := fun h => (heq h).2.2 }

/-- A change that leaves the finalizers too brings in no program. -/
theorem of_eq
    (hrebase : (fun h quarantine memory events => g (Heap.rebase h quarantine memory events)) =
      fun h quarantine memory events => (g h).rebase quarantine memory events)
    (hparts : (fun h => ((g h).nodes, (g h).roots.weak, (g h).pending, (g h).chronicle.misfrees,
        (g h).chronicle.trespasses)) =
      fun h => (h.nodes, h.roots.weak, h.pending, h.chronicle.misfrees, h.chronicle.trespasses)) :
    Discreet P g := by
  have heq := fun h => congrFun hparts h
  simp only [Prod.mk.injEq] at heq
  refine of_runs hrebase (funext fun h => ?_) fun h hr => ?_
  · rw [(heq h).1, (heq h).2.2.2.1, (heq h).2.2.2.2]
  · constructor
    · unfold Heap.payload?
      rw [(heq h).1]
      exact hr.hooks
    · rw [(heq h).2.1]
      exact hr.finalizers
    · rw [(heq h).2.2.1]
      exact hr.pending

theorem comp (hg : Discreet P g) (hg' : Discreet P g') : Discreet P fun h => g' (g h) where
  rebase := fun h quarantine memory events => by rw [hg.rebase, hg'.rebase]
  homes := fun h => (hg'.homes _).trans (hg.homes h)
  runs := fun h hr => hg'.runs _ (hg.runs h hr)
  misfrees := fun h => (hg'.misfrees _).trans (hg.misfrees h)
  trespasses := fun h => (hg'.trespasses _).trans (hg.trespasses h)

/-- Changing a node that keeps its place, and its payload if it has one, is discreet. -/
theorem modifyNode {n : NodeId} {f : Heap → Node → Node} (hrebase : Heap.Oblivious f)
    (hhome : ∀ h node, (f h node).home = node.home)
    (hpayload : ∀ h node p, (f h node).payload = some p →
      ∃ q, node.payload = some q ∧ p.hook = q.hook) : Discreet P fun h => h.modifyNode n (f h) where
  rebase := fun h quarantine memory events => by
    rw [hrebase.eq]
    rfl
  homes := fun h => Heap.homes_modifyNode (hhome h) h n
  runs := fun h hr => hr.modifyNode (hpayload h) n
  misfrees := fun _ => rfl
  trespasses := fun _ => rfl

/-- Giving a node another status is discreet. -/
theorem setStatus {n : NodeId} {s : Heap → Status} (hs : Heap.Oblivious s) :
    Discreet P fun h => h.setStatus n (s h) := by
  have hnode : Heap.Oblivious fun h (node : Node) => { node with status := s h } := by
    funext h quarantine memory events node
    simp only [hs.eq]
  exact .modifyNode hnode (fun _ _ => rfl) fun _ _ p hp => ⟨p, hp, rfl⟩

/-- Changing a payload that keeps its destructor is discreet. -/
theorem modifyPayload {n : NodeId} {f : Payload → Payload} (hf : ∀ p, (f p).hook = p.hook) :
    Discreet P fun h => h.modifyPayload n f :=
  .modifyNode (f := fun _ node => { node with payload := node.payload.map f }) rfl
    (fun _ _ => rfl) fun _ node p hp => by
      obtain ⟨q, hq, rfl⟩ := Option.map_eq_some_iff.1 hp
      exact ⟨q, hq, hf q⟩

/-- Taking a payload away is discreet. -/
theorem dropPayload (n : NodeId) :
    Discreet P fun h => h.modifyNode n fun node => { node with payload := none } :=
  .modifyNode (f := fun _ node => { node with payload := none }) rfl (fun _ _ => rfl)
    fun _ _ p hp => by cases hp

/-- A discreet change leaves the memory. -/
theorem memory (hg : Discreet P g) (h : Heap) : (g h).memory = h.memory := by
  have hrebase : g h = (g h).rebase h.config.quarantine h.memory h.events := hg.rebase h _ _ _
  exact (congrArg Heap.memory hrebase).trans rfl

/-- A discreet change leaves the events. -/
theorem events (hg : Discreet P g) (h : Heap) : (g h).events = h.events := by
  have hrebase : g h = (g h).rebase h.config.quarantine h.memory h.events := hg.rebase h _ _ _
  exact (congrArg Heap.events hrebase).trans rfl

end Discreet

namespace Twins

variable {P : Program → Prop} {h k : Heap} {g : Heap → Heap}

/-- The second of two twins runs only programs of which `P` holds, as the first does. -/
theorem runs_right (ht : Twins P h k) : k.Runs P := by
  obtain ⟨quarantine, memory, events, rfl⟩ := ht.same
  exact { ht.runs with }

/-- A discreet change of both leaves twins. -/
theorem change (ht : Twins P h k) (hg : Discreet P g) : Twins P (g h) (g k) := by
  have hbytes : ∀ h, (g h).bytes = h.bytes := fun h => by
    unfold Heap.bytes
    rw [hg.memory]
  constructor
  · obtain ⟨quarantine, memory, events, rfl⟩ := ht.same
    exact ⟨quarantine, memory, events, hg.rebase h quarantine memory events⟩
  · rw [hbytes, hbytes]
    exact ht.bytes
  · rw [hg.memory, hg.memory]
    exact ht.blocks
  · exact ht.left.congr (hg.memory h) (hg.homes h)
  · exact ht.right.congr (hg.memory k) (hg.homes k)
  · rw [hg.events, hg.events]
    exact ht.events
  · exact hg.runs h ht.runs

/-- Twins to which the same happens, as far as a mutator sees it, stay twins. -/
theorem setEvents {es es' : List Event} (ht : Twins P h k) (hes : Event.AllAgree P es es') :
    Twins P { h with events := es } { k with events := es' } := by
  obtain ⟨quarantine, memory, events, rfl⟩ := ht.same
  exact
    { ht with
      same := ⟨quarantine, memory, es', rfl⟩
      left := { ht.left with }
      right := { ht.right with }
      events := hes
      runs := { ht.runs with } }

theorem emit {e e' : Event} (ht : Twins P h k) (he : Event.Agree P e e') :
    Twins P (h.emit e) (k.emit e') := ht.setEvents (.cons he ht.events)

theorem log (ht : Twins P h k) (level : Level) (text : String) :
    Twins P (h.log level text) (k.log level text) := ht.emit (.same _)

end Twins

/-! ## Operations that are alike -/

/-- Of a heap and one to which an operation has led from there: of the programs that destructors and
finalizers may run `P` still holds, and it is not forgotten that a node was to be given back that
had no storage, or that something was written outside of storage that is out. -/
structure Kept (P : Program → Prop) (h h' : Heap) : Prop where
  runs : h'.Runs P
  misfrees : h.chronicle.misfrees ≤ h'.chronicle.misfrees
  trespasses : h.chronicle.trespasses ≤ h'.chronicle.trespasses

namespace Kept

variable {P : Program → Prop} {h h' h'' : Heap}

theorem refl (hr : h.Runs P) : Kept P h h := ⟨hr, Nat.le_refl _, Nat.le_refl _⟩

theorem trans (h₁ : Kept P h h') (h₂ : Kept P h' h'') : Kept P h h'' :=
  ⟨h₂.runs, Nat.le_trans h₁.misfrees h₂.misfrees, Nat.le_trans h₁.trespasses h₂.trespasses⟩

theorem change {g : Heap → Heap} (hr : h.Runs P) (hg : Discreet P g) : Kept P h (g h) :=
  ⟨hg.runs h hr, (hg.misfrees h).ge, (hg.trespasses h).ge⟩

theorem setEvents (hr : h.Runs P) (es : List Event) : Kept P h { h with events := es } :=
  ⟨{ hr with }, Nat.le_refl _, Nat.le_refl _⟩

end Kept

namespace Act

variable {α β γ δ : Type} {P : Program → Prop}

/-- Whether the operation returns or fails, what is to be kept is; what it returns satisfies `V`. -/
def Steady (P : Program → Prop) (V : α → Prop) (x : Act α) : Prop :=
  ∀ h, h.Runs P → Leads x h (fun a h' => V a ∧ Kept P h h') fun _ h' => Kept P h h'

/-- Two heaps have gone astray: in both a node was to be given back that had no storage, or in one
of them something was written outside of storage that is out. -/
def Astray (h k : Heap) : Prop :=
  (0 < h.chronicle.misfrees ∧ 0 < k.chronicle.misfrees) ∨
    0 < h.chronicle.trespasses ∨ 0 < k.chronicle.trespasses

/-- Heaps that have gone astray stay so. -/
theorem Astray.mono {h h' k k' : Heap} (hhk : Astray h k) (hh : Kept P h h') (hk : Kept P k k') :
    Astray h' k' := by
  have hmisfrees := hh.misfrees
  have hmisfrees' := hk.misfrees
  have htrespasses := hh.trespasses
  have htrespasses' := hk.trespasses
  unfold Astray at *
  omega

/-- Two operations have led from twins to twins: they have returned results that `R` relates or
have failed in the same way. Nothing is known if they have gone astray. -/
inductive Paired (P : Program → Prop) (R : α → β → Prop) :
    EStateM.Result Failure Heap α → EStateM.Result Failure Heap β → Prop where
  | ok {a : α} {b : β} {h k : Heap} (hab : R a b) (ht : Twins P h k) :
    Paired P R (.ok a h) (.ok b k)
  | error {e : Failure} {h k : Heap} (ht : Twins P h k) : Paired P R (.error e h) (.error e k)
  | astray {r : EStateM.Result Failure Heap α} {s : EStateM.Result Failure Heap β}
    (hrs : Astray (after r) (after s)) : Paired P R r s

/-- The operations lead from twins to twins, with results that `R` relates. -/
structure Alike (P : Program → Prop) (R : α → β → Prop) (x : Act α) (y : Act β) : Prop where
  left : Steady P (fun a => ∃ b, R a b) x
  right : Steady P (fun b => ∃ a, R a b) y
  paired : ∀ h k, Twins P h k → Paired P R (x h) (y k)

/-- The operation cannot tell twins apart. -/
def Blind (P : Program → Prop) (x : Act α) : Prop := Alike P Eq x x

namespace Steady

variable {V : α → Prop} {W : β → Prop} {x : Act α} {f : α → Act β} {h : Heap}

/-- What is to be kept is, where the operation has led. -/
theorem kept (hx : Steady P V x) (hr : h.Runs P) : Kept P h (after (x h)) := by
  have hxh := hx h hr
  unfold Leads at hxh
  cases hres : x h with
  | ok a k =>
    rw [hres] at hxh
    exact hxh.2
  | error e k =>
    rw [hres] at hxh
    exact hxh

/-- What is to be kept after the first part of a sequence is kept by the second. -/
theorem kept_bind (hx : Steady P V x) (hf : ∀ a, V a → Steady P W (f a)) (hr : h.Runs P) :
    Kept P (after (x h)) (after ((x >>= f) h)) := by
  have hxh := hx h hr
  show Kept P _ (after (EStateM.bind x f h))
  unfold Leads at hxh
  unfold EStateM.bind
  cases hres : x h with
  | ok a k =>
    rw [hres] at hxh
    exact (hf a hxh.1).kept hxh.2.runs
  | error e k =>
    rw [hres] at hxh
    exact .refl hxh.runs

theorem bind (hx : Steady P V x) (hf : ∀ a, V a → Steady P W (f a)) : Steady P W (x >>= f) := by
  intro h hr
  rw [leads_bind]
  refine (hx h hr).imp fun a k hk => ?_
  exact (hf a hk.1 k hk.2.runs).mono (fun _ _ hl => ⟨hl.1, hk.2.trans hl.2⟩)
    fun _ _ hl => hk.2.trans hl

end Steady

/-- What is known of the results may be weakened. -/
theorem Paired.mono {R R' : α → β → Prop} {r : EStateM.Result Failure Heap α}
    {s : EStateM.Result Failure Heap β} (hrs : Paired P R r s) (hR : ∀ a b, R a b → R' a b) :
    Paired P R' r s := by
  cases hrs with
  | ok hab ht => exact .ok (hR _ _ hab) ht
  | error ht => exact .error ht
  | astray hrs => exact .astray hrs

/-! ### Failures as results -/

/-- The operation with its failure as a result. -/
def attempt (x : Act α) : Act (Except Failure α) := fun h =>
  match x h with
  | .ok a k => .ok (.ok a) k
  | .error e k => .ok (.error e) k

/-- What an operation and the cleanup after it come to. -/
def conclude : Except Failure α → Except Failure Unit → Act α
  | .ok a, .ok _ => pure a
  | .ok _, .error e => throw e
  | .error e, .ok _ => throw e
  | .error e, .error e' => throw (e.andThen e')

/-- The cleanup is attempted whatever the operation came to. -/
theorem ensuring_eq (x : Act α) (c : Act Unit) :
    ensuring x c = attempt x >>= fun r => attempt c >>= conclude r := by
  funext h
  simp only [ensuring, bind, EStateM.bind, attempt]
  cases x h with
  | ok a k =>
    dsimp only
    cases c k <;> rfl
  | error e k =>
    dsimp only
    cases c k <;> rfl

/-- The cleanup is attempted if the operation failed. -/
theorem onFailure_eq (x : Act α) (c : Act Unit) :
    onFailure x c = attempt x >>= fun
      | .ok a => pure a
      | .error e => attempt c >>= conclude (.error e) := by
  funext h
  simp only [onFailure, bind, EStateM.bind, attempt]
  cases x h with
  | ok a k => rfl
  | error e k =>
    dsimp only [EStateM.bind, attempt]
    cases c k <;> rfl

/-- Two operations have come to results that `R` relates, or to the same failure. -/
inductive Outcomes (R : α → β → Prop) : Except Failure α → Except Failure β → Prop where
  | ok {a : α} {b : β} (hab : R a b) : Outcomes R (.ok a) (.ok b)
  | error (e : Failure) : Outcomes R (.error e) (.error e)

/-! ### Rules -/

namespace Alike

variable {R R' : α → β → Prop} {S : γ → δ → Prop} {x : Act α} {y : Act β} {c d : Act Unit}

/-- What is known of the results may be weakened. -/
theorem mono (hx : Alike P R x y) (hR : ∀ a b, R a b → R' a b) : Alike P R' x y where
  left := fun h hr => (hx.left h hr).imp fun a _ ⟨⟨b, hab⟩, hk⟩ => ⟨⟨b, hR a b hab⟩, hk⟩
  right := fun h hr => (hx.right h hr).imp fun b _ ⟨⟨a, hab⟩, hk⟩ => ⟨⟨a, hR a b hab⟩, hk⟩
  paired := fun h k ht => (hx.paired h k ht).mono hR

theorem pure {a : α} {b : β} (hab : R a b) : Alike P R (Pure.pure a) (Pure.pure b) where
  left := fun _ hr => ⟨⟨b, hab⟩, .refl hr⟩
  right := fun _ hr => ⟨⟨a, hab⟩, .refl hr⟩
  paired := fun _ _ ht => .ok hab ht

theorem throw (e : Failure) : Alike P R (throw e : Act α) (throw e : Act β) where
  left := fun _ hr => Kept.refl hr
  right := fun _ hr => Kept.refl hr
  paired := fun _ _ ht => .error ht

theorem fatal (cause : Fatal) : Alike P R (Act.fatal cause : Act α) (Act.fatal cause : Act β) where
  left := fun _ hr => Kept.setEvents hr _
  right := fun _ hr => Kept.setEvents hr _
  paired := fun _ _ ht => .error (ht.log _ _)

/-- Twins may be looked at. What is seen of each heap must be such that something else could be seen
of a twin. -/
theorem view {f : Heap → α} {g : Heap → β} (hf : ∀ h, h.Runs P → ∃ b, R (f h) b)
    (hg : ∀ k, k.Runs P → ∃ a, R a (g k)) (hfg : ∀ h k, Twins P h k → R (f h) (g k)) :
    Alike P R (Act.view f) (Act.view g) where
  left := fun h hr => ⟨hf h hr, .refl hr⟩
  right := fun k hr => ⟨hg k hr, .refl hr⟩
  paired := fun h k ht => .ok (hfg h k ht) ht

/-- Twins may be changed if that leaves twins. -/
theorem update {g g' : Heap → Heap} (hg : ∀ h, h.Runs P → Kept P h (g h))
    (hg' : ∀ k, k.Runs P → Kept P k (g' k)) (htwins : ∀ h k, Twins P h k → Twins P (g h) (g' k)) :
    Alike P Eq (Act.update g) (Act.update g') where
  left := fun h hr => ⟨⟨(), rfl⟩, hg h hr⟩
  right := fun k hr => ⟨⟨(), rfl⟩, hg' k hr⟩
  paired := fun h k ht => .ok rfl (htwins h k ht)

/-- Events that agree may befall twins. -/
theorem emit {e e' : Event} (he : Event.Agree P e e') :
    Alike P Eq (Act.update (·.emit e)) (Act.update (·.emit e')) :=
  update (fun _ hr => Kept.setEvents hr _) (fun _ hr => Kept.setEvents hr _)
    fun _ _ ht => ht.emit he

/-- Sequences are alike if their parts are. -/
theorem bind {f : α → Act γ} {g : β → Act δ} (hx : Alike P R x y)
    (hfg : ∀ a b, R a b → Alike P S (f a) (g b)) : Alike P S (x >>= f) (y >>= g) := by
  have hf : ∀ a, (∃ b, R a b) → Steady P (fun c => ∃ d, S c d) (f a) := fun a ⟨b, hab⟩ =>
    (hfg a b hab).left
  have hg : ∀ b, (∃ a, R a b) → Steady P (fun d => ∃ c, S c d) (g b) := fun b ⟨a, hab⟩ =>
    (hfg a b hab).right
  refine ⟨hx.left.bind hf, hx.right.bind hg, fun h k ht => ?_⟩
  have hkept := hx.left.kept_bind hf ht.runs
  have hkept' := hx.right.kept_bind hg ht.runs_right
  have hpaired := hx.paired h k ht
  generalize hxh : x h = r at hpaired hkept
  generalize hyk : y k = s at hpaired hkept'
  cases hpaired with
  | ok hab ht' =>
    show Paired P S (EStateM.bind x f h) (EStateM.bind y g k)
    unfold EStateM.bind
    rw [hxh, hyk]
    exact (hfg _ _ hab).paired _ _ ht'
  | error ht' =>
    show Paired P S (EStateM.bind x f h) (EStateM.bind y g k)
    unfold EStateM.bind
    rw [hxh, hyk]
    exact .error ht'
  | astray hrs =>
    -- What has gone astray in the first part stays so in the second.
    exact .astray (hrs.mono hkept hkept')

/-- Something may be looked at that does not depend on the memory, and what it is like in every heap
may be used. -/
theorem inspect (V : α → Prop) {f : Heap → α} {x : α → Act γ} {y : α → Act δ}
    (hf : Heap.Oblivious f) (hV : ∀ h, h.Runs P → V (f h))
    (hxy : ∀ a, V a → Alike P S (x a) (y a)) : Alike P S (Act.view f >>= x) (Act.view f >>= y) := by
  have hview : Alike P (fun a b => a = b ∧ V a) (Act.view f) (Act.view f) :=
    view (fun h hr => ⟨f h, rfl, hV h hr⟩) (fun k hr => ⟨f k, rfl, hV k hr⟩) fun h k ht => by
      obtain ⟨quarantine, memory, events, rfl⟩ := ht.same
      exact ⟨(hf.eq h quarantine memory events).symm, hV h ht.runs⟩
  refine hview.bind ?_
  rintro a _ ⟨rfl, ha⟩
  exact hxy a ha

theorem map {f : α → γ} {g : β → δ} (hx : Alike P R x y) (hfg : ∀ a b, R a b → S (f a) (g b)) :
    Alike P S (f <$> x) (g <$> y) := by
  rw [map_eq_pure_bind, map_eq_pure_bind]
  exact hx.bind fun a b hab => pure (hfg a b hab)

/-- Failures may be results. -/
theorem attempt (hx : Alike P R x y) : Alike P (Outcomes R) (attempt x) (attempt y) := by
  have hsteady : ∀ {ε : Type} {V : ε → Prop} {W : Except Failure ε → Prop} {z : Act ε},
      Steady P V z → (∀ a, V a → W (.ok a)) → (∀ e, W (.error e)) → Steady P W z.attempt := by
    intro ε V W z hz hok herror h hr
    have hzh := hz h hr
    unfold Leads Act.attempt at *
    cases hres : z h with
    | ok a k =>
      rw [hres] at hzh
      exact ⟨hok a hzh.1, hzh.2⟩
    | error e k =>
      rw [hres] at hzh
      exact ⟨herror e, hzh⟩
  refine ⟨hsteady hx.left (fun a ⟨b, hab⟩ => ⟨_, .ok hab⟩) fun e => ⟨_, .error e⟩,
    hsteady hx.right (fun b ⟨a, hab⟩ => ⟨_, .ok hab⟩) fun e => ⟨_, .error e⟩, fun h k ht => ?_⟩
  have hafter : ∀ {ε : Type} (z : Act ε) (h : Heap), after (z.attempt h) = after (z h) := by
    intro ε z h
    unfold Act.attempt
    cases z h <;> rfl
  have hpaired := hx.paired h k ht
  have hxh' := hafter x h
  have hyk' := hafter y k
  generalize hxh : x h = r at hpaired hxh'
  generalize hyk : y k = s at hpaired hyk'
  cases hpaired with
  | ok hab ht' =>
    unfold Act.attempt
    rw [hxh, hyk]
    exact .ok (.ok hab) ht'
  | error ht' =>
    unfold Act.attempt
    rw [hxh, hyk]
    exact .ok (.error _) ht'
  | astray hrs => exact .astray (hxh' ▸ hyk' ▸ hrs)

/-- An operation comes to the same with cleanups after it that are alike. -/
theorem conclude {r : Except Failure α} {s : Except Failure β} (hrs : Outcomes R r s)
    (hc : Alike P Eq c d) :
    Alike P R (c.attempt >>= Act.conclude r) (d.attempt >>= Act.conclude s) :=
  hc.attempt.bind fun r' s' hrs' => by
    cases hrs with
    | ok hab =>
      cases hrs' with
      | ok _ => exact pure hab
      | error e => exact throw e
    | error e =>
      cases hrs' with
      | ok _ => exact throw e
      | error e' => exact throw (e.andThen e')

theorem ensuring (hx : Alike P R x y) (hc : Alike P Eq c d) :
    Alike P R (ensuring x c) (ensuring y d) := by
  rw [ensuring_eq, ensuring_eq]
  exact hx.attempt.bind fun r s hrs => conclude hrs hc

theorem onFailure (hx : Alike P R x y) (hc : Alike P Eq c d) :
    Alike P R (onFailure x c) (onFailure y d) := by
  rw [onFailure_eq, onFailure_eq]
  refine hx.attempt.bind fun r s hrs => ?_
  cases hrs with
  | ok hab => exact pure hab
  | error e => exact conclude (.error e) hc

end Alike

/-! ### Operations that cannot tell twins apart -/

namespace Blind

variable {R : α → β → Prop} {x : Act α} {c : Act Unit}

theorem pure (a : α) : Blind P (Pure.pure a : Act α) := Alike.pure rfl

theorem throw (e : Failure) : Blind P (throw e : Act α) := Alike.throw e

theorem fatal (cause : Fatal) : Blind P (Act.fatal cause : Act α) := Alike.fatal cause

/-- What does not depend on the memory may be looked at. -/
theorem look {f : Heap → α} (hf : Heap.Oblivious f) : Blind P (Act.view f) :=
  Alike.view (fun h _ => ⟨f h, rfl⟩) (fun k _ => ⟨f k, rfl⟩) fun h k ht => by
    obtain ⟨quarantine, memory, events, rfl⟩ := ht.same
    exact (hf.eq h quarantine memory events).symm

/-- What depends on the memory by its bytes only may be looked at. -/
theorem lookBytes (f : Nat → Heap → α) (hf : ∀ bytes, Heap.Oblivious (f bytes)) :
    Blind P (Act.view fun h => f h.bytes h) :=
  Alike.view (fun h _ => ⟨_, rfl⟩) (fun k _ => ⟨_, rfl⟩) fun h k ht => by
    obtain ⟨quarantine, memory, events, rfl⟩ := ht.same
    rw [ht.bytes, (hf _).eq]

theorem update {g : Heap → Heap} (hg : Discreet P g) : Blind P (Act.update g) :=
  Alike.update (fun _ hr => .change hr hg) (fun _ hr => .change hr hg) fun _ _ ht => ht.change hg

/-- A change that depends on the memory by its bytes only may be made. -/
theorem updateBytes (g : Nat → Heap → Heap) (hg : ∀ bytes, Discreet P (g bytes)) :
    Blind P (Act.update fun h => g h.bytes h) :=
  Alike.update (fun h hr => .change hr (hg _)) (fun k hr => .change hr (hg _)) fun h k ht => by
    rw [ht.bytes]
    exact ht.change (hg h.bytes)

theorem log (level : Level) (text : String) : Blind P (Act.update (·.log level text)) :=
  Alike.emit (.same _)

/-- A message may be logged that depends on the memory by its bytes only. -/
theorem logBytes (level : Level) (text : Nat → Heap → String)
    (htext : ∀ bytes, Heap.Oblivious (text bytes)) :
    Blind P (Act.update fun h => h.log level (text h.bytes h)) :=
  Alike.update (fun _ hr => .setEvents hr _) (fun _ hr => .setEvents hr _) fun h k ht => by
    have heq : text k.bytes k = text h.bytes h := by
      rw [ht.bytes]
      obtain ⟨quarantine, memory, events, rfl⟩ := ht.same
      exact (htext _).eq h quarantine memory events
    rw [heq]
    exact ht.log level _

/-- An event may befall a heap that is changed then. -/
theorem emitThen {g : Heap → Heap} (e : Event) (hg : Discreet P g) :
    Blind P (Act.update fun h => g (h.emit e)) :=
  Alike.update (fun _ hr => (Kept.setEvents hr _).trans (.change { hr with } hg))
    (fun _ hr => (Kept.setEvents hr _).trans (.change { hr with } hg))
    fun _ _ ht => (ht.emit (.same e)).change hg

theorem bind {f : α → Act β} (hx : Blind P x) (hf : ∀ a, Blind P (f a)) : Blind P (x >>= f) :=
  Alike.bind hx fun a b hab => by
    cases hab
    exact hf a

theorem map {f : α → β} (hx : Blind P x) : Blind P (f <$> x) :=
  Alike.map hx fun _ _ hab => congrArg f hab

theorem discard (hx : Blind P x) : Blind P (discard x) := hx.map

theorem ite {p : Prop} [Decidable p] {x y : Act α} (hx : Blind P x) (hy : Blind P y) :
    Blind P (if p then x else y) := by
  split_ifs
  · exact hx
  · exact hy

theorem ensuring (hx : Blind P x) (hc : Blind P c) : Blind P (ensuring x c) :=
  Alike.ensuring hx hc

theorem onFailure (hx : Blind P x) (hc : Blind P c) : Blind P (onFailure x c) :=
  Alike.onFailure hx hc

theorem forM {f : α → Act PUnit} (hf : ∀ a, Blind P (f a)) (l : List α) :
    Blind P (l.forM f) := by
  induction l with
  | nil => exact pure _
  | cons a l ih => exact (hf a).bind fun _ => ih

/-- What it returns is related to itself. -/
theorem alike {R : α → α → Prop} (hx : Blind P x) (hR : ∀ a, R a a) : Alike P R x x :=
  hx.mono fun a _ hab => hab ▸ hR a

end Blind

/-- A step that cannot tell twins apart gets the same reply from them. -/
theorem Alike.reply {step : Step} {x : Act Reply} (hx : Blind P x) :
    Alike P (Reply.Agree P step) x x := hx.alike .same

end Act

/-- The runner leads from twins to twins, with answers that agree, if `P` holds of what it runs. -/
def Runner.Faithful (P : Program → Prop) (run : Runner) : Prop :=
  ∀ program, P program → Act.Alike P (Program.Agree P program) (run program) (run program)

end HybridHeap
