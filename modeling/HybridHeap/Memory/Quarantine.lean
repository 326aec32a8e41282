import HybridHeap.Memory.BlockStore

/-!
# The quarantine

A shim over the block store that notices writes past the ends of a block and writes to freed blocks.
Every block gets a redzone on either side, the leading one beginning with the size asked of the
store. A freed block is filled with the poison byte and held back, first in first out, until the
blocks held back outgrow the budget. The table `freed` lists every block ever freed; the first
`released` of them have gone back to the store and the rest are the quarantine. A block whose
redzones look fresh can be freed though it was freed before; the table then lists it twice, and the
store does not know it any more when it goes back for the second time.
-/

namespace HybridHeap.Memory

/-- A freed block with the size of its allocation, redzones included. -/
structure FreedBlock where
  block : BlockId
  size : Nat

/-- The block store behind its redzones. -/
structure Quarantine where
  inner : BlockStore
  /-- All blocks ever freed, oldest first. -/
  freed : Array FreedBlock
  /-- How many of the freed blocks have gone back to the store. -/
  released : Nat
  /-- The sizes of the blocks held back, added up. -/
  heldBytes : Nat
  /-- The most bytes that are held back. -/
  budget : Nat
  /-- The bytes asked for by callers and not yet freed. -/
  liveBytes : Nat
  /-- The blocks that the store did not know when they went back to it in the latest call, oldest
  first. -/
  strays : List FreedBlock

/-- Why a block could not be freed. -/
inductive FreeFault where
  /-- There is no such block. -/
  | unknownBlock
  /-- The redzones or the stored size are not as they were written. -/
  | redzoneDamaged
  /-- The size does not fit in a word once the redzones are added. -/
  | overflow
  /-- More bytes are given back than are outstanding, which shows once the block is poisoned. -/
  | overdrawn
  deriving DecidableEq

namespace Quarantine

/-- The bytes of redzone on either side of a block. -/
def redzoneSize : Nat := 16

/-- The byte a redzone is filled with. -/
def redzoneByte : UInt8 := 0xfa

/-- The byte a freed block is filled with. -/
def freedByte : UInt8 := 0xfd

/-- An empty quarantine over a store. -/
def new (inner : BlockStore) (budget : Nat) : Quarantine :=
  { inner, freed := #[], released := 0, heldBytes := 0, budget, liveBytes := 0, strays := [] }

/-- The contents of a fresh allocation for a block of `bytes` bytes. -/
def freshBytes (bytes : Nat) : Bytes :=
  let leading := (Bytes.uniform 0).writeRun 0 redzoneSize redzoneByte
  let sized := leading.writeWord (bytes + 2 * redzoneSize)
  sized.writeRun (redzoneSize + bytes) redzoneSize redzoneByte

/-- The size of the allocation for a block of so many bytes, if a word can hold it. -/
def allocationSize? (bytes : Nat) : Option Nat := Word.fit? (bytes + 2 * redzoneSize)

/-- Where the allocation for a block of `bytes` bytes goes, given the place the system has for it;
`none` if the store refuses it. -/
def admit? (q : Quarantine) (bytes : Nat) (place : Option Address) : Option Address :=
  (allocationSize? bytes).bind fun size => q.inner.admit? size place

/-- The quarantine with a further block of `bytes` bytes between its redzones. -/
def push (q : Quarantine) (base : Address) (bytes : Nat) : Quarantine :=
  let b := q.inner.blocks.size
  { q with
    inner := (q.inner.push base (bytes + 2 * redzoneSize)).modifyBytes b fun _ => freshBytes bytes
    liveBytes := q.liveBytes + bytes }

/-- A block of `bytes` bytes between its redzones; `none` if the store refuses it. -/
def alloc (q : Quarantine) (bytes : Nat) (place : Option Address) :
    Option (BlockId × Quarantine) :=
  (q.admit? bytes place).map fun base => (q.inner.blocks.size, q.push base bytes)

/-- Whether the redzones around a block of `bytes` bytes are as they were written, the stored size
apart. -/
def redzonesIntact (m : Bytes) (bytes : Nat) : Bool :=
  m.runIs 8 (redzoneSize - 8) redzoneByte && m.runIs (redzoneSize + bytes) redzoneSize redzoneByte

/-- Give the oldest blocks held back to the store until the rest fits the budget. -/
def releaseOldest (q : Quarantine) : Quarantine :=
  if h : q.budget < q.heldBytes ∧ q.released < q.freed.size then
    let oldest := q.freed[q.released]
    let isKnown := q.inner.isLive oldest.block
    releaseOldest { q with
      inner := q.inner.free oldest.block
      released := q.released + 1
      heldBytes := q.heldBytes - oldest.size
      strays := if isKnown then q.strays else q.strays ++ [oldest] }
  else q
termination_by q.freed.size - q.released

/-- Why a block of `bytes` bytes cannot be freed, if it cannot. -/
def fault? (q : Quarantine) (b : BlockId) (bytes : Nat) : Option FreeFault :=
  let contents := q.inner.bytesOf b
  match allocationSize? bytes with
  | none => some .overflow
  | some size =>
    if contents.readWord != size || !redzonesIntact contents bytes then some .redzoneDamaged
    else if q.liveBytes < bytes then some .overdrawn
    else none

/-- Fill the allocation for a block of `bytes` bytes with poison. It may be smaller than the one
that the store made, if the stored size has been written over. -/
def poison (q : Quarantine) (b : BlockId) (bytes : Nat) : Quarantine :=
  let size := bytes + 2 * redzoneSize
  let isPart := q.inner.blocks[b]?.any fun block => size < block.size
  { q with inner := q.inner.modifyBytes b fun m =>
      if isPart then m.writeRun 0 size freedByte else Bytes.uniform freedByte }

/-- Fill a freed block of `bytes` bytes with poison and hold it back. -/
def hold (q : Quarantine) (b : BlockId) (bytes : Nat) : Quarantine :=
  let size := bytes + 2 * redzoneSize
  let q := q.poison b bytes
  releaseOldest { q with
    freed := q.freed.push ⟨b, size⟩
    heldBytes := q.heldBytes + size
    liveBytes := q.liveBytes - bytes
    strays := [] }

/-- Free a block of `bytes` bytes unless there is something wrong with it. -/
def free (q : Quarantine) (b : BlockId) (bytes : Nat) : Except FreeFault Quarantine :=
  match q.fault? b bytes with
  | some fault => .error fault
  | none => .ok (q.hold b bytes)

/-- The blocks held back, oldest first. -/
def held (q : Quarantine) : List FreedBlock := q.freed.toList.drop q.released

/-- The number of blocks held back. -/
def heldBlocks (q : Quarantine) : Nat := q.freed.size - q.released

/-- The number of blocks held back that were written to since they were freed. -/
def corruptedBlocks (q : Quarantine) : Nat :=
  q.held.countP fun f => (q.inner.bytesOf f.block).hasOther f.size freedByte

/-- The quarantine as it is shown. -/
def toText (q : Quarantine) : String :=
  Text.record "QuarantineAllocator"
    [("inner", q.inner.toText),
     ("live_bytes", toString q.liveBytes),
     ("quarantine", Text.quoted s!"[{q.heldBlocks} blocks, {q.heldBytes} of {q.budget} bytes]")]

end Quarantine

end HybridHeap.Memory
