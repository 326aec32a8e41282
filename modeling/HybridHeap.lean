import HybridHeap.CommandLine
import HybridHeap.Derive.Expansion
import HybridHeap.Main
import HybridHeap.Memory.Session
import HybridHeap.Mutator.Run
import HybridHeap.PerThread
import HybridHeap.Proofs.Accounts
import HybridHeap.Proofs.Alternation
import HybridHeap.Proofs.CleanMemory
import HybridHeap.Proofs.FinalizerOrder
import HybridHeap.Proofs.FullCollection
import HybridHeap.Proofs.Guards
import HybridHeap.Proofs.Hygiene
import HybridHeap.Proofs.InteriorPointers
import HybridHeap.Proofs.LiveList
import HybridHeap.Proofs.NodeLookup
import HybridHeap.Proofs.Pinning
import HybridHeap.Proofs.Policy
import HybridHeap.Proofs.Precedence
import HybridHeap.Proofs.Reclamation
import HybridHeap.Proofs.Redzones
import HybridHeap.Proofs.RefusedAllocation
import HybridHeap.Proofs.Rounds
import HybridHeap.Proofs.RootSources
import HybridHeap.Proofs.Sequences
import HybridHeap.Proofs.SlotOwners
import HybridHeap.Proofs.StackRoots
import HybridHeap.Proofs.StatusSteps
import HybridHeap.Proofs.SweepingAhead
import HybridHeap.Proofs.Transparency
import HybridHeap.Proofs.TriggerPolicy
import HybridHeap.Proofs.TwinCollections
import HybridHeap.Proofs.TwinSteps
import HybridHeap.Proofs.Twins
import HybridHeap.Proofs.UnpinnedSources
import HybridHeap.Proofs.WrittenSizes
import HybridHeap.Rings.Session
import HybridHeap.Workload.Run
