import HybridHeap.Answer
import HybridHeap.Memory.Allocator

/-!
# Calling an allocator

What a caller can ask of an allocator without a collector in between, and what it gets to see: the
outcome of the call and what was logged. Blocks are named by their number in the order of
allocation, and places in them by an offset from their storage. A call that names a block that
never was is refused.
-/

namespace HybridHeap.Memory

/-- An allocator with the sizes that were asked for, by block. -/
structure Session where
  allocator : Allocator
  sizes : Array Nat

/-- What a caller can ask. -/
inductive Call where
  | alloc (bytes : Nat)
  /-- Give a block back. A quarantine is told that its size is `bytes`, or else the size asked
  for. -/
  | free (b : BlockId) (bytes : Option Nat)
  /-- Ask for the storage around a place. -/
  | baseOf (b : BlockId) (offset : Int)
  /-- Ask whether there is storage around an address. -/
  | hasBase (address : Address)
  | setMark (b : BlockId)
  | clearMark (b : BlockId)
  | isMarked (b : BlockId)
  /-- Count the freed blocks written to since they were freed. -/
  | corrupted
  /-- Write a byte at a place. -/
  | poke (b : BlockId) (offset : Int) (byte : UInt8)
  /-- Tell the allocator that it never collects on its own. -/
  | configure
  | isAssistOnly
  /-- Ask for the lowest and the highest place ever handed out. -/
  | range
  | showText
  /-- A call that cannot be understood. -/
  | senseless

/-- A block and an offset from its storage. -/
structure Place where
  block : BlockId
  offset : Int
  deriving DecidableEq

/-- What a call gives back. -/
inductive Outcome where
  | nothing
  | block (b : BlockId) (isAligned : Bool)
  | place (p : Option Place)
  | range (r : Option (Place × Place))
  | flag (b : Bool)
  | number (n : Nat)
  | text (s : String)
  | failure (f : Failure)

/-- What a call does. -/
structure Reaction where
  session : Session
  outcome : Outcome
  /-- What was logged. -/
  log : List (Level × String)

namespace Session

/-- A session with a new allocator. -/
def new (limit quarantine : Option Nat) : Session := ⟨Allocator.new limit quarantine, #[]⟩

/-- A call that only looks at the allocator. -/
def seen (s : Session) (outcome : Outcome) : Reaction := ⟨s, outcome, []⟩

/-- A call that is refused. -/
def refused (s : Session) : Reaction := s.seen (.failure .refused)

/-- A call that changes the allocator and gives nothing back. -/
def changed (s : Session) (f : Allocator → Allocator) (log : List (Level × String)) : Reaction :=
  ⟨{ s with allocator := f s.allocator }, .nothing, log⟩

/-- The place of an address that was handed out. -/
def placeOf? (s : Session) (a : Address) : Option Place :=
  let store := s.allocator.store
  (store.blocks.findIdx? fun block => block.base ≤ a && a < block.base + block.size).map fun b =>
    ⟨b, (a : Int) - s.allocator.storageAddress b⟩

/-- Ask for a block. -/
def alloc (s : Session) (bytes : Nat) : Reaction :=
  match s.allocator.admit? bytes with
  | none => s.seen .nothing
  | some base =>
    let s : Session := ⟨s.allocator.push base bytes, s.sizes.push bytes⟩
    let b := s.allocator.lastBlock
    s.seen (.block b (s.allocator.storageAddress b % blockAlignment == 0))

/-- Give a block back as one of `bytes` bytes. -/
def free (s : Session) (b : BlockId) (bytes : Nat) : Reaction :=
  match s.allocator.fault? b bytes with
  | none =>
    let allocator := s.allocator.release b bytes
    ⟨{ s with allocator }, .nothing,
      allocator.straySizes.map fun size => (.error, unknownFreeText size none)⟩
  | some .unknownBlock => ⟨s, .nothing, [(.error, unknownFreeText bytes none)]⟩
  | some .overflow => s.seen (.failure .overflow)
  | some .overdrawn =>
    ⟨{ s with allocator := s.allocator.afterFault .overdrawn b bytes }, .failure .overflow, []⟩
  | some .redzoneDamaged =>
    let cause := Fatal.redzoneDamaged bytes none
    ⟨s, .failure (.fatal cause), [(.error, cause.message)]⟩

/-- The bytes before and after a block's storage that can still be asked about. -/
def reach : Nat := 48

/-- Ask for the storage around a place. -/
def baseOf (s : Session) (b : BlockId) (size : Nat) (offset : Int) : Reaction :=
  if offset < -(reach : Int) || (size + reach : Int) ≤ offset then s.refused
  else
    let address := (s.allocator.storageAddress b + offset).toNat
    s.seen (.place ((s.allocator.baseOf? address).map fun b => ⟨b, 0⟩))

/-- Whether a byte at the place may be written: inside a block that is there, or behind a quarantine
also in its redzones and after it was freed. -/
def isPokeable (s : Session) (b : BlockId) (size : Nat) (offset : Int) : Bool :=
  if s.allocator.isShielded then
    let redzone : Int := Quarantine.redzoneSize
    0 ≤ offset + redzone && offset < size + redzone
  else s.allocator.isLive b && 0 ≤ offset && offset < size

/-- Make a call that names a block of the given size. -/
def callOn (s : Session) (b : BlockId) (size : Nat) : Call → Reaction
  | .free _ bytes => s.free b (if s.allocator.isShielded then bytes.getD size else size)
  | .baseOf _ offset => s.baseOf b size offset
  | .setMark _ =>
    s.changed (·.setMark b)
      (if s.allocator.isLive b then [] else [(.warning, unknownMarkText none)])
  | .clearMark _ => s.changed (·.clearMark b) []
  | .isMarked _ => s.seen (.flag (s.allocator.isMarked b))
  | .poke _ offset byte =>
    if s.isPokeable b size offset then s.changed (·.poke b offset byte) [] else s.refused
  | _ => s.refused

/-- Make a call that names no block. -/
def callOnAll (s : Session) : Call → Reaction
  | .alloc bytes => s.alloc bytes
  | .hasBase address => s.seen (.flag (s.allocator.baseOf? address).isSome)
  | .corrupted => s.seen (.number s.allocator.corruptedBlocks)
  | .configure => s.changed (·.assistOnly) []
  | .isAssistOnly => s.seen (.flag s.allocator.store.assistOnly)
  | .range =>
    s.seen (.range do
      let (least, greatest) ← s.allocator.store.range?
      return (← s.placeOf? least, ← s.placeOf? greatest))
  | .showText => s.seen (.text s.allocator.toText)
  | _ => s.refused

/-- The block that a call names. -/
def blockOf? : Call → Option BlockId
  | .free b _ | .baseOf b _ | .setMark b | .clearMark b | .isMarked b | .poke b _ _ => some b
  | _ => none

/-- Make a call. -/
def call (s : Session) (c : Call) : Reaction :=
  match blockOf? c with
  | none => s.callOnAll c
  | some b => match s.sizes[b]? with
    | none => s.refused
    | some size => s.callOn b size c

/-- Make calls in order; the result has what each of them did. -/
def callEach (s : Session) : List Call → List Reaction
  | [] => []
  | c :: rest =>
    let reaction := s.call c
    reaction :: callEach reaction.session rest

end Session

end HybridHeap.Memory
