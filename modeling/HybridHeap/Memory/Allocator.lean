import HybridHeap.Memory.Quarantine

/-!
# The byte allocator

What the collector asks of the memory underneath it, answered either by the block store itself or by
the quarantine over it. A block's *storage* is the part of it that the caller may use: all of it, or
what lies between the redzones.
-/

namespace HybridHeap.Memory

/-- The memory underneath a collector. -/
inductive Allocator where
  | direct (store : BlockStore)
  | shielded (quarantine : Quarantine)

namespace Allocator

/-- An allocator with the given byte limit, behind a quarantine if there is a budget for one. -/
def new (limit quarantine : Option Nat) : Allocator :=
  match quarantine with
  | none => direct (BlockStore.empty limit)
  | some budget => shielded (Quarantine.new (BlockStore.empty limit) budget)

/-- The store that holds the blocks. -/
def store : Allocator → BlockStore
  | direct s => s
  | shielded q => q.inner

/-- The bytes before a block's storage. -/
def leading : Allocator → Nat
  | direct _ => 0
  | shielded _ => Quarantine.redzoneSize

/-- Whether freed blocks are held back. -/
def isShielded : Allocator → Bool
  | direct _ => false
  | shielded _ => true

/-- Change the store that holds the blocks. -/
def mapStore (a : Allocator) (f : BlockStore → BlockStore) : Allocator :=
  match a with
  | direct s => direct (f s)
  | shielded q => shielded { q with inner := f q.inner }

/-- Where the block for a request of `bytes` bytes goes; `none` if the request is refused. -/
def admit? (a : Allocator) (bytes : Nat) : Option Address :=
  match a with
  | direct s => s.admit? bytes (s.nextPlace (BlockStore.sizeFor bytes))
  | shielded q => q.admit? bytes (q.inner.nextPlace (bytes + 2 * Quarantine.redzoneSize))

/-- The number of the block handed out last. -/
def lastBlock (a : Allocator) : BlockId := a.store.blocks.size - 1

/-- The allocator with a further block whose storage has at least `bytes` bytes. -/
def push (a : Allocator) (base : Address) (bytes : Nat) : Allocator :=
  match a with
  | direct s => direct (s.push base (BlockStore.sizeFor bytes))
  | shielded q => shielded (q.push base bytes)

/-- Why a block whose storage has `bytes` bytes cannot be given back, if it cannot. -/
def fault? (a : Allocator) (b : BlockId) (bytes : Nat) : Option FreeFault :=
  match a with
  | direct s => if s.isLive b then none else some .unknownBlock
  | shielded q => q.fault? b bytes

/-- Give back a block whose storage has `bytes` bytes. -/
def release (a : Allocator) (b : BlockId) (bytes : Nat) : Allocator :=
  match a with
  | direct s => direct (s.free b)
  | shielded q => shielded (q.hold b bytes)

/-- What happens to a block of `bytes` bytes that could not be given back for a reason: it is
poisoned if the reason shows after that. -/
def afterFault (a : Allocator) (fault : FreeFault) (b : BlockId) (bytes : Nat) : Allocator :=
  match a, fault with
  | shielded q, .overdrawn => shielded (q.poison b bytes)
  | a, _ => a

/-- The sizes of the blocks that the store did not know when the latest release gave them to it. -/
def straySizes : Allocator → List Nat
  | direct _ => []
  | shielded q => q.strays.map FreedBlock.size

/-- The block that contains the address. -/
def baseOf? (a : Allocator) (address : Address) : Option BlockId := a.store.baseOf? address

/-- Whether the block is there. -/
def isLive (a : Allocator) (b : BlockId) : Bool := a.store.isLive b

/-- Mark a block as holding a node, if there is such a block. -/
def setMark (a : Allocator) (b : BlockId) : Allocator := a.mapStore (·.setMark b)

/-- Clear the mark of a block. -/
def clearMark (a : Allocator) (b : BlockId) : Allocator := a.mapStore (·.clearMark b)

/-- Whether a block is marked. -/
def isMarked (a : Allocator) (b : BlockId) : Bool := a.store.isMarked b

/-- The bytes outstanding, as callers asked for them. -/
def bytesAllocated : Allocator → Nat
  | direct s => s.bytesAllocated
  | shielded q => q.liveBytes

/-- Tell the allocator that it never collects on its own. -/
def assistOnly (a : Allocator) : Allocator := a.mapStore fun s => { s with assistOnly := true }

/-- Freed blocks found written to since they were freed. -/
def corruptedBlocks : Allocator → Nat
  | direct _ => 0
  | shielded q => q.corruptedBlocks

/-- The address of the first byte of a block's storage. -/
def storageAddress (a : Allocator) (b : BlockId) : Address := a.store.baseAddress b + a.leading

/-- Write one byte of a block, at an offset from its storage. -/
def poke (a : Allocator) (b : BlockId) (offset : Int) (byte : UInt8) : Allocator :=
  let place := (offset + a.leading).toNat
  a.mapStore (·.modifyBytes b fun m => m.write place byte)

/-- The allocator as it is shown. -/
def toText : Allocator → String
  | direct s => s.toText
  | shielded q => q.toText

end Allocator

end HybridHeap.Memory
