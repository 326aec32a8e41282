import HybridHeap.Memory.Bytes
import HybridHeap.Text.Record
import HybridHeap.Word

/-!
# The block store

Raw blocks of storage with a running byte count, and one mark per block so that an arbitrary
address can be tested for lying in a block that holds a node. A block is named by its number in the
order of allocation. Where the system puts a block is a parameter of `alloc`; `nextPlace` is the
choice made when the program runs. Blocks that were given back stay in the table, released, so that
no number and no address is used twice.
-/

namespace HybridHeap.Memory

/-- An address, counted in bytes. -/
abbrev Address := Nat

/-- The number of a block in the order of allocation. -/
abbrev BlockId := Nat

/-- One block of storage. -/
structure Block where
  /-- The address of its first byte. -/
  base : Address
  /-- Its size in bytes, never zero. -/
  size : Nat
  /-- Whether the block is marked as holding a node. -/
  marked : Bool
  /-- Whether the block has been given back. -/
  released : Bool
  bytes : Bytes

/-- The blocks handed out so far. -/
structure BlockStore where
  blocks : Array Block
  /-- The bytes of the blocks not given back. -/
  bytesAllocated : Nat
  /-- The most bytes that may be outstanding. -/
  limit : Option Nat
  /-- The lowest address ever handed out. -/
  least : Address
  /-- The highest address ever handed out. -/
  greatest : Address
  /-- Set once the store has been told that it never collects on its own. -/
  assistOnly : Bool

namespace BlockStore

/-- A store without blocks. -/
def empty (limit : Option Nat) : BlockStore :=
  { blocks := #[], bytesAllocated := 0, limit, least := Word.largest, greatest := 0,
    assistOnly := false }

/-- The size above which the system refuses a block. -/
def systemLimit : Nat := 128 * 1024 * 1024

/-- The least number of unused bytes between two blocks. -/
def gap : Nat := 64

/-- The address of the first block. -/
def firstPlace : Address := 65536

/-- Where the system puts a block of the given size: above all others, at a multiple of 16;
`none` if it refuses. -/
def nextPlace (s : BlockStore) (size : Nat) : Option Address :=
  if size ≤ systemLimit then
    match s.blocks.back? with
    | none => some firstPlace
    | some last => some ((last.base + last.size + gap + 15) / 16 * 16)
  else none

/-- The size of the block for a request of so many bytes; no block is empty. -/
def sizeFor (bytes : Nat) : Nat := max bytes 1

/-- Whether a block of the given size would take the store above its limit. -/
def exceedsLimit (s : BlockStore) (size : Nat) : Bool :=
  s.limit.any (· < Word.addSaturating s.bytesAllocated size)

/-- Where a block for `bytes` bytes goes, given the place the system has for it; `none` if the limit
or the system refuses it. -/
def admit? (s : BlockStore) (bytes : Nat) (place : Option Address) : Option Address :=
  if s.exceedsLimit (sizeFor bytes) then none else place

/-- The store with a further block of the given size. -/
def push (s : BlockStore) (base : Address) (size : Nat) : BlockStore :=
  { s with
    blocks := s.blocks.push
      { base, size, marked := false, released := false, bytes := Bytes.uniform 0 }
    bytesAllocated := s.bytesAllocated + size
    least := min s.least base
    greatest := max s.greatest (base + size - 1) }

/-- A block of at least `bytes` bytes at the place the system gives; `none` if it is refused. -/
def alloc (s : BlockStore) (bytes : Nat) (place : Option Address) :
    Option (BlockId × BlockStore) :=
  (s.admit? bytes place).map fun base => (s.blocks.size, s.push base (sizeFor bytes))

/-- The block of that number unless it has been given back. -/
def live? (s : BlockStore) (b : BlockId) : Option Block :=
  s.blocks[b]?.filter fun block => !block.released

/-- Whether there is a block of that number that has not been given back. -/
def isLive (s : BlockStore) (b : BlockId) : Bool := (s.live? b).isSome

/-- The store with one block changed. -/
def modifyBlock (s : BlockStore) (b : BlockId) (f : Block → Block) : BlockStore :=
  { s with blocks := s.blocks.modify b f }

/-- Give a block back. A block that is not there changes nothing. -/
def free (s : BlockStore) (b : BlockId) : BlockStore :=
  match s.live? b with
  | none => s
  | some block =>
    let bytesAllocated := s.bytesAllocated - block.size
    { s.modifyBlock b fun block => { block with released := true } with bytesAllocated }

/-- The number of blocks not given back. -/
def blockCount (s : BlockStore) : Nat := s.blocks.countP fun block => !block.released

/-- Of the blocks not given back, the one with the highest base at or below the address. -/
def floor? (s : BlockStore) (a : Address) : Option (BlockId × Block) :=
  s.blocks.toList.zipIdx.foldl (fun best (block, b) =>
    if !block.released && block.base ≤ a && best.all (fun (_, other) => other.base ≤ block.base)
    then some (b, block) else best) none

/-- The block not given back that contains the address. -/
def baseOf? (s : BlockStore) (a : Address) : Option BlockId :=
  if a < s.least || s.greatest < a then none
  else (s.floor? a).bind fun (b, block) => if a < block.base + block.size then some b else none

/-- Mark a block as holding a node, if there is such a block. -/
def setMark (s : BlockStore) (b : BlockId) : BlockStore :=
  if s.isLive b then s.modifyBlock b fun block => { block with marked := true } else s

/-- Clear the mark of a block, if there is such a block. -/
def clearMark (s : BlockStore) (b : BlockId) : BlockStore :=
  if s.isLive b then s.modifyBlock b fun block => { block with marked := false } else s

/-- Whether the block is there and marked. -/
def isMarked (s : BlockStore) (b : BlockId) : Bool := (s.live? b).any Block.marked

/-- The lowest and the highest address ever handed out, if any. -/
def range? (s : BlockStore) : Option (Address × Address) :=
  if s.least ≤ s.greatest then some (s.least, s.greatest) else none

/-- The address of a block's first byte. -/
def baseAddress (s : BlockStore) (b : BlockId) : Address := (s.blocks[b]?.map Block.base).getD 0

/-- The contents of a block, also of one that was given back. -/
def bytesOf (s : BlockStore) (b : BlockId) : Bytes :=
  (s.blocks[b]?.map Block.bytes).getD (Bytes.uniform 0)

/-- Change the contents of a block. -/
def modifyBytes (s : BlockStore) (b : BlockId) (f : Bytes → Bytes) : BlockStore :=
  s.modifyBlock b fun block => { block with bytes := f block.bytes }

/-- The store as it is shown. -/
def toText (s : BlockStore) : String :=
  Text.record "BlockAllocator"
    [("blocks", Text.quoted s!"[{s.blockCount} blocks]"),
     ("bytes_allocated", toString s.bytesAllocated),
     ("limit", Text.optional toString s.limit),
     ("assist_only", Text.truth s.assistOnly)]

end BlockStore

end HybridHeap.Memory
