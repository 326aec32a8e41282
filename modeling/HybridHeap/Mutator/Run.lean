import HybridHeap.Collector.Check
import HybridHeap.Mutator.Inspection
import HybridHeap.Mutator.RootStacks
import HybridHeap.Mutator.WeakReferences

/-!
# Running mutator programs

Each step of a program is performed and answered: with its reply, or with the failure that ended
it, with the counters of the heap after it, and with the events on the way. Steps can run further
programs, namely destructors, finalizers and the bodies of holds. Every program that occurs in a
script runs at most once, so the number of steps in the script bounds both how deep programs nest
and how long any loop of the collector goes on.
-/

namespace HybridHeap.Mutator

open Collector

/-- A step that gives nothing back. -/
def silently (step : Act Unit) : Act Reply := do
  step
  return .nothing

/-- Perform one step. -/
def perform (run : Runner) (fuel : Nat) : Step → Act Reply
  | .allocate form kind kids hook => .node <$> allocate run fuel form kind kids hook
  | .edge h n => .node <$> referTo h n takeEdge
  | .erasedEdge h n => .node <$> referTo h n takeErased
  | .root h n => .node <$> referTo h n takeRoot
  | .stackRoot h n => do
    requireNoDestructor
    .node <$> referTo h n takeStackRoot
  | .edgeFrom h source => .node <$> edgeFrom h source
  | .rootFrom h source => .node <$> referToTarget h source takeRoot
  | .stackRootFrom h source => do
    requireNoDestructor
    .node <$> referToTarget h source takeStackRoot
  | .clone h source => .node <$> copy h source
  | .erase h => .node <$> eraseKind h
  | .downcast h source kind => .nodeOrNone <$> downcast h source kind
  | .isKind h kind => .flag <$> isKind h kind
  | .drop h => silently <| dropNamed h
  | .forget h => silently <| forget h
  | .retarget h target => silently <| retarget h target
  | .read h => readNamed h
  | .refcount h => .number <$> refcount h
  | .same a b => .flag <$> isSame a b
  | .link n target hidden front => do
    requireAllocated n
    requireReferable target
    silently <| link n target hidden front
  | .unlink n place hidden => do
    requireAllocated n
    .nodeOrNone <$> unlink n place hidden
  | .clear n hidden => do
    requireAllocated n
    silently <| clear n hidden
  | .get n => do
    requireAllocated n
    look n
  | .hold n body => do
    requireNoDestructor
    requireReferable n
    .answers <$> holding n (run body)
  | .header n => .header <$> header n
  | .markBit n => .flag <$> markBit n
  | .trace n => .nodes <$> trace n
  | .makeMoribund n => silently <| queueNode n
  | .underflow n => silently <| dropTwice n
  | .leak n count => .number <$> leak n count
  | .showHandle h => do
    let x ← handle h
    match ← Act.view (showHandle · x) with
    | some text => return .text text
    | none => refuse
  | .showNode n => do
    let (pointer, header) ← showPointer n
    return .texts pointer header
  | .showHeap => .text <$> Act.view Heap.toText
  | .lite => .number <$> runLiteSweep run fuel
  | .full => .collection <$> forceFullCollection run fuel
  | .finalize => .number <$> runPendingFinalizers run fuel
  | .inhibit h => do
    requireUnused h
    Act.update fun heap => { heap with inhibitors := heap.inhibitors + 1 }
    silently <| keep h .inhibitor
  | .isInhibited => .flag <$> Act.view Heap.isInhibited
  | .isCollecting => .flag <$> Act.view (·.collecting)
  | .phase => .phase <$> Act.view (·.phase)
  | .check => do
    match ← checked with
    | .ok report => return .report report
    | .error violation => return .violation violation
  | .checkInvariants => .flag <$> checkInvariants
  | .stats => Act.view fun h => .stats h.stats h.trigger
  | .enable on => do
    Act.update fun h => { h with enabled := on }
    return .flag on
  | .verbose on => do
    Act.update fun h => { h with verbose := on }
    return .flag on
  | .setTrigger bytes => do
    setTrigger bytes
    .number <$> Act.view (·.trigger)
  | .trigger => .number <$> Act.view (·.trigger)
  | .settings => .settings <$> Act.view (·.config)
  | .protect n => .number <$> protect n
  | .unprotect count => silently <| unprotect count
  | .reprotect n place => silently <| reprotect n place
  | .protectedAt place => .nodeOrNone <$> Act.view (·.roots.protect[place]?)
  | .protectSize => .number <$> Act.view (·.roots.protect.size)
  | .restoreProtect size => silently <| restoreProtect size
  | .push n => silently <| push n
  | .pop => .nodeOrNone <$> pop
  | .top => .nodeOrNone <$> Act.view (·.roots.nodeStack.back?)
  | .stackSize => .number <$> Act.view (·.roots.nodeStack.size)
  | .restoreStack size => silently <| restoreStack size
  | .snapshot h => do return .text (← takeSnapshot h).toText
  | .restore h => silently <| restore h
  | .source h nodes pins => do return .text (showSourceId (← newSource h nodes pins))
  | .designate h nodes => silently <| designate h nodes
  | .unregister h => .flag <$> unregister h
  | .weak h key value finalizer => silently <| newWeak h key value finalizer
  | .weakNode h => .key <$> weakNode h
  | .weakKey h kind keepName => .nodeOrNone <$> weakEdge weakKey? h kind keepName
  | .weakValue h kind keepName => .nodeOrNone <$> weakEdge weakValue? h kind keepName
  | .looks n offset => .nodeOrNone <$> looks n offset
  | .looksAt address => .nodeOrNone <$> Act.view (nodeAt? · address)
  | .corrupted => .number <$> Act.view (·.memory.corruptedBlocks)
  | .poke n offset byte => silently <| poke n offset byte
  | .allocator => .allocator <$> Act.view allocatorView
  | .senseless => refuse

/-- The terms on which a mutator runs. -/
structure Terms where
  /-- What the run ends with instead of performing a step in a heap, if that may not be done. -/
  objection : Heap → Step → Option Failure
  /-- Whether a failure ends the run. Any other is the reply to the step that failed. -/
  ends : Failure → Bool

/-- Any step may be performed, and any failure is a reply. Running out of fuel is no outcome. -/
def Terms.free : Terms := { objection := fun _ _ => none, ends := fun e => e == .exhausted }

/-- End the run if the step may not be performed now. -/
def permit (terms : Terms) (step : Step) : Act Unit := do
  match ← Act.view (terms.objection · step) with
  | none => pure ()
  | some e => throw e

/-- The reply of a step, which is its failure if it fails and the run does not end. -/
def replyOf (terms : Terms) (step : Act Reply) : Act Reply := fun h =>
  match step h with
  | .ok reply h => .ok reply h
  | .error e h => if terms.ends e then .error e h else .ok (.failure e) h

/-- Perform a step and answer it. The events of the step that it interrupted are kept. -/
def answer (terms : Terms) (run : Runner) (fuel : Nat) (step : Step) : Act Answer := do
  permit terms step
  let outer ← Act.view (·.events)
  Act.update fun h => { h with events := [] }
  let reply ← replyOf terms (perform run fuel step)
  let (summary, events) ← Act.view fun h => (h.summary, h.events.reverse)
  Act.update fun h => { h with events := outer }
  return .mk reply summary events

/-- Run a program whose programs nest at most `depth` deep. -/
def runNested (terms : Terms) (fuel : Nat) : Nat → Program → Act (List Answer)
  | 0, _ => throw .exhausted
  | depth + 1, program => program.mapM (answer terms (runNested terms fuel depth) fuel)

/-- Run a script. -/
def runScript (script : Program) : Act (List Answer) :=
  let fuel := Program.size script + 2
  runNested .free fuel fuel script

end HybridHeap.Mutator
