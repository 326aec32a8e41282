import HybridHeap.Text.Record

/-!
# The status word of a node

A node's reference count and its flags share one word of 32 bits: the flags are the five lowest
bits, the count is the 24 highest, and the three bits between them mean nothing. A count that
reaches `countMax` sticks there. Counting a reference up or down also says what the owner of the
moribund queue has to do: an increment may revive a queued node, a decrement may orphan a node that
is not queued yet.
-/

namespace HybridHeap

/-- The flags of a status word. -/
inductive Flag where
  /-- Compared against the collector's mark cycle, so flipping the cycle unmarks every node. -/
  | mark
  /-- The node is on the moribund queue. -/
  | moribund
  /-- The count has been above zero at least once. -/
  | referenced
  /-- The payload has been dropped, only the storage remains. -/
  | detached
  /-- The node is the key of at least one weak entry. -/
  | weakKey
  deriving DecidableEq

/-- The bit of a flag. -/
def Flag.bit : Flag → UInt32
  | mark => 1
  | moribund => 2
  | referenced => 4
  | detached => 8
  | weakKey => 16

/-- The name under which a flag is shown. -/
def Flag.name : Flag → String
  | mark => "MARK"
  | moribund => "MORIBUND"
  | referenced => "REFERENCED"
  | detached => "DETACHED"
  | weakKey => "WEAK_KEY"

/-- The flags in the order of their bits. -/
def Flag.all : List Flag := [mark, moribund, referenced, detached, weakKey]

/-- The flag with the given name. -/
def Flag.ofName? (name : String) : Option Flag := Flag.all.find? (·.name == name)

/-- The count and the flags of a node, packed in one word. -/
structure Status where
  word : UInt32
  deriving DecidableEq

/-- What the collector must do after counting a reference up. -/
inductive Increment where
  | held
  /-- The node was on the moribund queue and must be taken off it. -/
  | revived
  deriving DecidableEq

/-- What the collector must do after counting a reference down. -/
inductive Decrement where
  | held
  /-- The count reached zero on a node not queued yet: its flag is set and it must be queued. -/
  | orphaned
  deriving DecidableEq

namespace Status

/-- The count that sticks. -/
def countMax : Nat := 0xffffff

/-- What one reference adds to the word. -/
def one : UInt32 := 256

/-- The status of a node that nothing refers to yet, marked or not. -/
def fresh (marked : Bool) : Status := ⟨if marked then Flag.mark.bit else 0⟩

/-- The number of counted references. -/
def count (s : Status) : Nat := (s.word >>> 8).toNat

/-- Whether the flag is set. -/
def contains (s : Status) (f : Flag) : Bool := s.word &&& f.bit != 0

/-- The flags that are set, in the order of their bits. -/
def flags (s : Status) : List Flag := Flag.all.filter s.contains

/-- The same word with the flag set. -/
def insert (s : Status) (f : Flag) : Status := ⟨s.word ||| f.bit⟩

/-- The same word with the flag clear. -/
def erase (s : Status) (f : Flag) : Status := ⟨s.word &&& ~~~f.bit⟩

/-- Whether the count has reached the value at which it sticks. -/
def isSaturated (s : Status) : Bool := s.count == countMax

/-- The word with its mark set to the given cycle. -/
def setMark (s : Status) (cycle : Bool) : Status := if cycle then s.insert .mark else s.erase .mark

/-- Count one more reference. The node counts as referenced from now on and is not moribund. -/
def increment (s : Status) : Status × Increment :=
  if s.isSaturated then (s, .held)
  else
    let next := ((Status.mk (s.word + one)).insert .referenced).erase .moribund
    (next, if s.contains .moribund then .revived else .held)

/-- Count one reference fewer; `none` if there is none. A count that reaches zero makes the node
moribund. -/
def decrement? (s : Status) : Option (Status × Decrement) :=
  if s.isSaturated then some (s, .held)
  else if s.count = 0 then none
  else
    let next := Status.mk (s.word - one)
    if next.count = 0 && !next.contains .moribund then some (next.insert .moribund, .orphaned)
    else some (next, .held)

/-- The flags as they are shown: their names, or the empty word. -/
def showFlags (s : Status) : String :=
  let names := s.flags.map Flag.name
  "StatusFlags(" ++ (if names.isEmpty then "0x0" else " | ".intercalate names) ++ ")"

/-- The status as it is shown. -/
def toText (s : Status) : String :=
  Text.record "Status" [("refcount", toString s.count), ("flags", s.showFlags)]

end Status

end HybridHeap
