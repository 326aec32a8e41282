/-!
# The bytes of a block

The contents of a block are one byte everywhere, except at the offsets that have been written one
by one since. This keeps a block of any size small, and filling it costs nothing.
-/

namespace HybridHeap.Memory

/-- The bytes of a block, by offset. -/
structure Bytes where
  /-- The byte at every offset that is not patched. -/
  fill : UInt8
  /-- Single bytes written over the fill, latest first. -/
  patches : List (Nat × UInt8)

namespace Bytes

/-- The same byte everywhere. -/
def uniform (b : UInt8) : Bytes := ⟨b, []⟩

/-- The byte at an offset. -/
def read (m : Bytes) (offset : Nat) : UInt8 := (m.patches.lookup offset).getD m.fill

/-- The bytes after writing one of them. -/
def write (m : Bytes) (offset : Nat) (b : UInt8) : Bytes :=
  { m with patches := (offset, b) :: m.patches }

/-- The bytes after writing `b` at `count` offsets from `start` on. -/
def writeRun (m : Bytes) (start count : Nat) (b : UInt8) : Bytes :=
  (List.range count).foldl (fun m i => m.write (start + i) b) m

/-- The bytes after writing a word, lowest byte first, at the offsets from 0 to 7. -/
def writeWord (m : Bytes) (n : Nat) : Bytes :=
  (List.range 8).foldl (fun m i => m.write i (UInt8.ofNat (n >>> (8 * i)))) m

/-- The word at the offsets from 0 to 7, lowest byte first. -/
def readWord (m : Bytes) : Nat :=
  (List.range 8).foldr (fun i n => (m.read i).toNat + 256 * n) 0

/-- Whether every one of `count` bytes from `start` on is `b`. -/
def runIs (m : Bytes) (start count : Nat) (b : UInt8) : Bool :=
  (List.range count).all fun i => m.read (start + i) == b

/-- Whether some byte below `size` is not `b`. -/
def hasOther (m : Bytes) (size : Nat) (b : UInt8) : Bool :=
  if m.fill = b then m.patches.any fun (offset, _) => offset < size && m.read offset != b
  else (List.range size).any fun offset => m.read offset != b

@[simp] theorem read_uniform (b : UInt8) (offset : Nat) : (uniform b).read offset = b := rfl

theorem read_write (m : Bytes) (offset : Nat) (b : UInt8) (i : Nat) :
    (m.write offset b).read i = if i = offset then b else m.read i := by
  by_cases h : i = offset
  · simp [read, write, h]
  · simp [read, write, List.lookup_cons, beq_eq_false_iff_ne.2 h, h]

/-- `hasOther` finds a foreign byte exactly if there is one. -/
theorem hasOther_iff (m : Bytes) (size : Nat) (b : UInt8) :
    m.hasOther size b = true ↔ ∃ offset, offset < size ∧ m.read offset ≠ b := by
  unfold hasOther
  split
  · rename_i h
    constructor
    · simp only [List.any_eq_true, Bool.and_eq_true, decide_eq_true_eq, bne_iff_ne]
      rintro ⟨⟨o, x⟩, -, ho, hx⟩
      exact ⟨o, ho, hx⟩
    · rintro ⟨o, ho, hne⟩
      simp only [List.any_eq_true, Bool.and_eq_true, decide_eq_true_eq, bne_iff_ne]
      cases hl : m.patches.lookup o with
      | none => simp [read, hl, h] at hne
      | some x =>
        have : ∃ l₁ l₂, m.patches = l₁ ++ (o, x) :: l₂ := by
          obtain ⟨l₁, l₂, hp, -⟩ := List.lookup_eq_some_iff.1 hl
          exact ⟨l₁, l₂, hp⟩
        obtain ⟨l₁, l₂, hp⟩ := this
        exact ⟨(o, x), by simp [hp], ho, hne⟩
  · simp [List.any_eq_true, List.mem_range]

end Bytes

end HybridHeap.Memory
