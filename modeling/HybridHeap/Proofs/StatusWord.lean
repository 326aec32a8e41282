import HybridHeap.Status
import Mathlib.Data.Nat.Bitwise
import Mathlib.Tactic.SplitIfs

/-!
# Counts and flags of a status word

What each operation on a status word does to its count and to each of its flags. A word is read as a
natural number: the flag of index `i` is its bit `i`, and the count is the number above the lowest
eight bits, so adding or subtracting one reference moves the count and leaves the flags alone.
-/

namespace HybridHeap

/-- The index of a flag's bit. -/
def Flag.index : Flag → Nat
  | mark => 0
  | moribund => 1
  | referenced => 2
  | detached => 3
  | weakKey => 4

namespace Status

/-- Flags lie below the count. -/
theorem index_lt (f : Flag) : f.index < 8 := by cases f <;> decide

/-- Different flags have different bits. -/
theorem index_inj {f g : Flag} : f.index = g.index ↔ f = g := by
  cases f <;> cases g <;> decide

/-- The bit of a flag as a natural number. -/
theorem toNat_bit (f : Flag) : f.bit.toNat = 2 ^ f.index := by cases f <;> rfl

/-- A flag is set when its bit is. -/
theorem contains_eq_testBit (s : Status) (f : Flag) :
    s.contains f = s.word.toNat.testBit f.index := by
  unfold contains
  have hne : (s.word &&& f.bit != 0) = (s.word.toNat &&& 2 ^ f.index != 0) := by
    rw [Bool.eq_iff_iff, bne_iff_ne, bne_iff_ne, ne_eq, ne_eq, ← UInt32.toNat_inj,
      UInt32.toNat_and, toNat_bit]
    rfl
  rw [hne, Nat.and_two_pow]
  cases s.word.toNat.testBit f.index with
  | false => simp
  | true => simp

/-- The count is what lies above the lowest eight bits. -/
theorem count_eq_div (s : Status) : s.count = s.word.toNat / 256 := by
  unfold count
  rw [UInt32.toNat_shiftRight]
  show s.word.toNat >>> 8 = _
  rw [Nat.shiftRight_eq_div_pow]

/-- A count is at most the value at which it sticks. -/
theorem count_le_max (s : Status) : s.count ≤ countMax := by
  have hlt := s.word.toNat_lt
  rw [count_eq_div]
  unfold countMax
  omega

/-- A count is saturated when it has the value at which it sticks. -/
theorem isSaturated_iff (s : Status) : s.isSaturated = true ↔ s.count = countMax := by
  simp [isSaturated]

/-- And it is not if it has another value. -/
theorem isSaturated_eq_false_iff (s : Status) : s.isSaturated = false ↔ s.count ≠ countMax := by
  rw [Bool.eq_false_iff, ne_eq, isSaturated_iff]

/-- A count of zero is not saturated. -/
theorem not_isSaturated_of_count_eq_zero {s : Status} (hs : s.count = 0) :
    s.isSaturated = false := by
  simp [isSaturated, hs, countMax]

/-! ## Setting and clearing flags -/

/-- The word with a flag set, as a natural number. -/
theorem toNat_insert (s : Status) (f : Flag) :
    (s.insert f).word.toNat = s.word.toNat ||| 2 ^ f.index := by
  rw [← toNat_bit, ← UInt32.toNat_or]
  rfl

/-- A bit of the word with a flag clear. -/
theorem testBit_erase (s : Status) (f : Flag) (i : Nat) :
    (s.erase f).word.toNat.testBit i = (s.word.toNat.testBit i && decide (i ≠ f.index)) := by
  have hword : (s.erase f).word.toNat = s.word.toNat &&& (2 ^ 32 - 1 - 2 ^ f.index) := by
    unfold erase
    rw [UInt32.toNat_and, UInt32.toNat_not, toNat_bit]
    rfl
  have hcompl : (2 ^ 32 - 1 - 2 ^ f.index).testBit i =
      (decide (i < 32) && decide (i ≠ f.index)) := by
    have hindex := index_lt f
    have hlt : 2 ^ f.index < 2 ^ 32 := Nat.pow_lt_pow_right (by decide) (by omega)
    rw [show 2 ^ 32 - 1 - 2 ^ f.index = 2 ^ 32 - (2 ^ f.index + 1) by omega,
      Nat.testBit_two_pow_sub_succ hlt, Nat.testBit_two_pow]
    by_cases hi : i = f.index <;> simp [hi, eq_comm]
  rw [hword, Nat.testBit_and, hcompl]
  by_cases hi : i < 32
  · simp [hi]
  · have hbig : s.word.toNat.testBit i = false := by
      apply Nat.testBit_lt_two_pow
      calc s.word.toNat < 2 ^ 32 := s.word.toNat_lt
        _ ≤ 2 ^ i := Nat.pow_le_pow_right (by decide) (by omega)
    simp [hbig]

/-- Setting a flag changes no other bit. -/
theorem testBit_insert_of_ne (s : Status) {f : Flag} {i : Nat} (hi : i ≠ f.index) :
    (s.insert f).word.toNat.testBit i = s.word.toNat.testBit i := by
  rw [toNat_insert, Nat.testBit_or, Nat.testBit_two_pow]
  simp [Ne.symm hi]

/-- Clearing a flag changes no other bit. -/
theorem testBit_erase_of_ne (s : Status) {f : Flag} {i : Nat} (hi : i ≠ f.index) :
    (s.erase f).word.toNat.testBit i = s.word.toNat.testBit i := by
  rw [testBit_erase]
  simp [hi]

@[simp] theorem contains_insert (s : Status) (f g : Flag) :
    (s.insert f).contains g = (s.contains g || decide (f = g)) := by
  rw [contains_eq_testBit, contains_eq_testBit, toNat_insert, Nat.testBit_or, Nat.testBit_two_pow]
  simp only [index_inj]

@[simp] theorem contains_erase (s : Status) (f g : Flag) :
    (s.erase f).contains g = (s.contains g && decide (g ≠ f)) := by
  rw [contains_eq_testBit, contains_eq_testBit, testBit_erase]
  simp only [ne_eq, index_inj]

/-- A number whose high bits are those of another has the same count. -/
theorem div_eq_of_testBit {a b : Nat} (hbits : ∀ i, 8 ≤ i → a.testBit i = b.testBit i) :
    a / 256 = b / 256 := by
  apply Nat.eq_of_testBit_eq
  intro i
  rw [show 256 = 2 ^ 8 from rfl, Nat.testBit_div_two_pow, Nat.testBit_div_two_pow]
  exact hbits (i + 8) (by omega)

@[simp] theorem count_insert (s : Status) (f : Flag) : (s.insert f).count = s.count := by
  rw [count_eq_div, count_eq_div]
  refine div_eq_of_testBit fun i hi => s.testBit_insert_of_ne ?_
  have hf := index_lt f
  omega

@[simp] theorem count_erase (s : Status) (f : Flag) : (s.erase f).count = s.count := by
  rw [count_eq_div, count_eq_div]
  refine div_eq_of_testBit fun i hi => s.testBit_erase_of_ne ?_
  have hf := index_lt f
  omega

@[simp] theorem isSaturated_insert (s : Status) (f : Flag) :
    (s.insert f).isSaturated = s.isSaturated := by
  simp [isSaturated]

@[simp] theorem isSaturated_erase (s : Status) (f : Flag) :
    (s.erase f).isSaturated = s.isSaturated := by
  simp [isSaturated]

/-- A status is its word, bit by bit. -/
theorem eq_of_testBit {s t : Status}
    (hbits : ∀ i, s.word.toNat.testBit i = t.word.toNat.testBit i) : s = t := by
  cases s
  cases t
  congr 1
  exact UInt32.toNat_inj.1 (Nat.eq_of_testBit_eq hbits)

/-- Setting a flag that is set changes nothing. -/
theorem insert_of_contains {s : Status} {f : Flag} (hf : s.contains f = true) : s.insert f = s := by
  rw [contains_eq_testBit] at hf
  refine eq_of_testBit fun i => ?_
  rw [toNat_insert, Nat.testBit_or, Nat.testBit_two_pow]
  by_cases hi : f.index = i
  · simp [← hi, hf]
  · simp [hi]

/-- Clearing a flag that is clear changes nothing. -/
theorem erase_of_not_contains {s : Status} {f : Flag} (hf : s.contains f = false) :
    s.erase f = s := by
  rw [contains_eq_testBit] at hf
  refine eq_of_testBit fun i => ?_
  rw [testBit_erase]
  by_cases hi : i = f.index
  · simp [hi, hf]
  · simp [hi]

/-- Setting a flag again that was cleared restores the word. -/
theorem insert_erase {s : Status} {f : Flag} (hf : s.contains f = true) :
    (s.erase f).insert f = s := by
  rw [contains_eq_testBit] at hf
  refine eq_of_testBit fun i => ?_
  rw [toNat_insert, Nat.testBit_or, Nat.testBit_two_pow, testBit_erase]
  by_cases hi : f.index = i
  · simp [← hi, hf]
  · simp [hi, Ne.symm hi]

/-- Setting a flag that is clear adds its bit. -/
theorem word_insert {s : Status} {f : Flag} (hf : s.contains f = false) :
    (s.insert f).word = s.word + f.bit := by
  have hand : s.word &&& f.bit = 0 := by simpa [contains] using hf
  unfold insert
  apply UInt32.toBitVec_inj.1
  rw [UInt32.toBitVec_or, UInt32.toBitVec_add]
  refine (BitVec.add_eq_or_of_and_eq_zero _ _ ?_).symm
  rw [← UInt32.toBitVec_and, hand]
  rfl

/-- Clearing a flag that is set subtracts its bit. -/
theorem word_erase {s : Status} {f : Flag} (hf : s.contains f = true) :
    (s.erase f).word + f.bit = s.word := by
  have hclear : (s.erase f).contains f = false := by simp
  rw [← word_insert hclear, insert_erase hf]

@[simp] theorem count_setMark (s : Status) (cycle : Bool) : (s.setMark cycle).count = s.count := by
  cases cycle <;> simp [setMark]

@[simp] theorem isSaturated_setMark (s : Status) (cycle : Bool) :
    (s.setMark cycle).isSaturated = s.isSaturated := by
  simp [isSaturated]

@[simp] theorem contains_setMark (s : Status) (cycle : Bool) (f : Flag) :
    (s.setMark cycle).contains f = if f = .mark then cycle else s.contains f := by
  cases cycle <;> cases f <;> simp [setMark]

@[simp] theorem count_fresh (marked : Bool) : (fresh marked).count = 0 := by
  cases marked <;> rfl

@[simp] theorem contains_fresh (marked : Bool) (f : Flag) :
    (fresh marked).contains f = (marked && decide (f = .mark)) := by
  cases marked <;> cases f <;> rfl

/-! ## Counting -/

/-- A word with one reference more. -/
theorem toNat_add_one {s : Status} (hs : s.isSaturated = false) :
    (s.word + one).toNat = s.word.toNat + 256 := by
  have hne := s.isSaturated_eq_false_iff.1 hs
  have hlt := s.word.toNat_lt
  rw [count_eq_div] at hne
  unfold countMax at hne
  rw [UInt32.toNat_add]
  show (s.word.toNat + 256) % 2 ^ 32 = _
  omega

/-- A word with one reference fewer. -/
theorem toNat_sub_one {s : Status} (hs : s.count ≠ 0) :
    (s.word - one).toNat = s.word.toNat - 256 := by
  rw [count_eq_div] at hs
  apply UInt32.toNat_sub_of_le
  rw [UInt32.le_iff_toNat_le]
  show 256 ≤ s.word.toNat
  omega

/-- Numbers that agree modulo 256 agree in the lowest eight bits. -/
theorem testBit_eq_of_mod {a b i : Nat} (hmod : a % 256 = b % 256) (hi : i < 8) :
    a.testBit i = b.testBit i := by
  have ha := Nat.testBit_mod_two_pow a 8 i
  have hb := Nat.testBit_mod_two_pow b 8 i
  rw [show (2 : Nat) ^ 8 = 256 from rfl] at ha hb
  rw [hmod, hb] at ha
  simpa [hi] using ha.symm

/-- One reference more leaves the lowest eight bits as they are. -/
theorem testBit_add_one {s : Status} (hs : s.isSaturated = false) {i : Nat} (hi : i < 8) :
    (s.word + one).toNat.testBit i = s.word.toNat.testBit i := by
  refine testBit_eq_of_mod ?_ hi
  rw [toNat_add_one hs]
  omega

/-- So does one reference fewer. -/
theorem testBit_sub_one {s : Status} (hs : s.count ≠ 0) {i : Nat} (hi : i < 8) :
    (s.word - one).toNat.testBit i = s.word.toNat.testBit i := by
  refine testBit_eq_of_mod ?_ hi
  rw [toNat_sub_one hs]
  rw [count_eq_div] at hs
  omega

/-- A flag says the same of a word with one reference more. -/
theorem contains_add_one {s : Status} (hs : s.isSaturated = false) (f : Flag) :
    (Status.mk (s.word + one)).contains f = s.contains f := by
  rw [contains_eq_testBit, contains_eq_testBit]
  exact testBit_add_one hs (index_lt f)

/-- A saturated count sticks when it is counted up. -/
theorem increment_of_isSaturated {s : Status} (hs : s.isSaturated = true) :
    s.increment = (s, .held) := by
  simp [increment, hs]

/-- A saturated count sticks when it is counted down. -/
theorem decrement?_of_isSaturated {s : Status} (hs : s.isSaturated = true) :
    s.decrement? = some (s, .held) := by
  simp [decrement?, hs]

/-- Counting up adds one to a count that does not stick. -/
theorem count_increment {s : Status} (hs : s.isSaturated = false) :
    s.increment.1.count = s.count + 1 := by
  simp only [increment, hs, Bool.false_eq_true, if_false, count_erase, count_insert]
  rw [count_eq_div, count_eq_div, toNat_add_one hs]
  omega

/-- Counting up sets the flag of nodes that have been referenced, clears that of moribund ones, and
leaves the other flags. -/
theorem contains_increment {s : Status} (hs : s.isSaturated = false) (f : Flag) :
    s.increment.1.contains f =
      ((s.contains f || decide (f = .referenced)) && decide (f ≠ .moribund)) := by
  simp only [increment, hs, Bool.false_eq_true, if_false, contains_erase, contains_insert]
  rw [contains_add_one hs]
  simp only [eq_comm]

/-- What is counted up is flagged as referenced afterwards, unless its count sticks. -/
theorem referenced_increment (s : Status) :
    s.increment.1.isSaturated = true ∨ s.increment.1.contains .referenced = true := by
  cases hs : s.isSaturated with
  | true =>
    rw [increment_of_isSaturated hs]
    exact .inl hs
  | false =>
    rw [contains_increment hs]
    exact .inr (by simp)

/-- Counting up concerns the flags of moribund and of referenced nodes only. -/
theorem contains_increment_of_ne (s : Status) {f : Flag} (hm : f ≠ .moribund)
    (hr : f ≠ .referenced) : s.increment.1.contains f = s.contains f := by
  cases hs : s.isSaturated with
  | true => rw [increment_of_isSaturated hs]
  | false =>
    rw [contains_increment hs]
    simp [hm, hr]

/-- A node is revived by a reference exactly when it was moribund and its count does not stick. -/
theorem increment_snd (s : Status) :
    s.increment.2 = if !s.isSaturated && s.contains .moribund then .revived else .held := by
  unfold increment
  cases s.isSaturated <;> cases s.contains .moribund <;> rfl

/-- Only a node that is flagged as moribund is revived. -/
theorem contains_moribund_of_revived {s : Status} (hs : s.increment.2 = .revived) :
    s.contains .moribund = true := by
  rw [increment_snd] at hs
  cases hq : s.contains .moribund with
  | true => rfl
  | false =>
    rw [hq, Bool.and_false] at hs
    cases hs

/-- A node that is counted up stays flagged as moribund unless that revives it. -/
theorem contains_moribund_increment (s : Status) : s.increment.1.contains .moribund =
    (s.contains .moribund && decide (s.increment.2 ≠ .revived)) := by
  rw [increment_snd]
  cases hs : s.isSaturated with
  | true =>
    rw [increment_of_isSaturated hs]
    simp
  | false =>
    rw [contains_increment hs]
    cases s.contains .moribund <;> rfl

/-- There is nothing to count down when the count is zero. -/
theorem decrement?_of_count_eq_zero {s : Status} (hs : s.count = 0) : s.decrement? = none := by
  simp [decrement?, not_isSaturated_of_count_eq_zero hs, hs]

/-- What is counted down has a count. -/
theorem count_ne_zero_of_decrement? {s : Status} {counted : Status × Decrement}
    (hs : s.decrement? = some counted) : s.count ≠ 0 := fun h0 => by
  rw [decrement?_of_count_eq_zero h0] at hs
  cases hs

/-- Counting down a count that is not zero and does not stick. -/
theorem decrement?_eq {s : Status} (hs : s.isSaturated = false) (h0 : s.count ≠ 0) :
    ∃ t o, s.decrement? = some (t, o) ∧ t.count + 1 = s.count ∧
      (∀ f, f ≠ .moribund → t.contains f = s.contains f) ∧
      (t.contains .moribund = (s.contains .moribund || decide (t.count = 0))) ∧
      (o = .orphaned ↔ t.count = 0 ∧ s.contains .moribund = false) := by
  have hcount : (Status.mk (s.word - one)).count + 1 = s.count := by
    rw [count_eq_div, count_eq_div, toNat_sub_one h0]
    rw [count_eq_div] at h0
    omega
  have hbit : ∀ f, (Status.mk (s.word - one)).contains f = s.contains f := by
    intro f
    rw [contains_eq_testBit, contains_eq_testBit]
    exact testBit_sub_one h0 (index_lt f)
  simp only [decrement?, hs, Bool.false_eq_true, if_false, h0]
  split_ifs with hc
  · simp only [Bool.and_eq_true, decide_eq_true_eq, Bool.not_eq_true', hbit] at hc
    refine ⟨_, _, rfl, ?_, ?_, ?_, ?_⟩
    · simpa using hcount
    · intro f hf
      simp [hbit, Ne.symm hf]
    · simp [hc.1]
    · simp [hc.1, hc.2]
  · simp only [Bool.and_eq_true, decide_eq_true_eq, Bool.not_eq_true', hbit, not_and,
      Bool.not_eq_false] at hc
    refine ⟨_, _, rfl, hcount, fun f _ => hbit f, ?_, ?_⟩
    · rw [hbit]
      by_cases h1 : (Status.mk (s.word - one)).count = 0
      · simp [hc h1]
      · simp [h1]
    · simp only [reduceCtorEq, false_iff, not_and, Bool.not_eq_false]
      exact hc

/-- Counting down concerns the flag of moribund nodes only. -/
theorem contains_of_decrement? {s t : Status} {outcome : Decrement}
    (hs : s.decrement? = some (t, outcome)) {f : Flag} (hf : f ≠ .moribund) :
    t.contains f = s.contains f := by
  cases hsat : s.isSaturated with
  | true =>
    rw [decrement?_of_isSaturated hsat] at hs
    cases hs
    rfl
  | false =>
    obtain ⟨t', outcome', heq, -, hflags, -, -⟩ :=
      decrement?_eq hsat (count_ne_zero_of_decrement? hs)
    rw [hs] at heq
    cases heq
    exact hflags f hf

/-- Counting down undoes counting up, if the count does not come to stick, the node has been
referenced before, and it is flagged as moribund exactly if its count was zero. -/
theorem decrement?_increment {s : Status} (hlow : s.count + 1 < countMax)
    (hreferenced : s.contains .referenced = true)
    (hmoribund : s.contains .moribund = decide (s.count = 0)) :
    s.increment.1.decrement? = some (s, if s.count = 0 then .orphaned else .held) := by
  have hs : s.isSaturated = false := s.isSaturated_eq_false_iff.2 (by omega)
  have hcount := count_increment hs
  have hs' : s.increment.1.isSaturated = false :=
    s.increment.1.isSaturated_eq_false_iff.2 (by omega)
  have hup : s.increment.1 = (Status.mk (s.word + one)).erase .moribund := by
    have hset : (Status.mk (s.word + one)).contains .referenced = true := by
      rw [contains_add_one hs, hreferenced]
    simp only [increment, hs, Bool.false_eq_true, if_false, insert_of_contains hset]
  -- Counted up and down the word is what it was without the flag of moribund nodes.
  have hdown : Status.mk (s.increment.1.word - one) = s.erase .moribund := by
    rw [hup]
    cases hm : s.contains .moribund with
    | true =>
      have hbit := word_erase ((contains_add_one hs .moribund).trans hm)
      have hbit' := word_erase hm
      have hword : ((Status.mk (s.word + one)).erase .moribund).word - one =
          (s.erase .moribund).word := by
        grind
      rw [hword]
    | false =>
      rw [erase_of_not_contains ((contains_add_one hs .moribund).trans hm),
        erase_of_not_contains hm]
      have hword : s.word + one - one = s.word := by grind
      rw [hword]
  simp only [decrement?, hs', Bool.false_eq_true, if_false, hdown,
    show s.increment.1.count ≠ 0 by omega, count_erase, contains_erase]
  by_cases h0 : s.count = 0
  · rw [h0, decide_eq_true rfl] at hmoribund
    simp [h0, insert_erase hmoribund]
  · rw [decide_eq_false h0] at hmoribund
    simp [h0, erase_of_not_contains hmoribund]

/-- A count that sticks sticks however often it is counted up. -/
theorem repeat_increment_of_isSaturated {s : Status} (hs : s.isSaturated = true) (k : Nat) :
    Nat.repeat (fun s => s.increment.1) k s = s := by
  induction k with
  | zero => rfl
  | succ k ih =>
    show (Nat.repeat (fun s => s.increment.1) k s).increment.1 = s
    rw [ih, increment_of_isSaturated hs]

/-- Counting up several times, once the flag of moribund nodes is clear, leaves it so. -/
theorem repeat_increment (s : Status) (k : Nat)
    (hs : s.isSaturated = true ∨ s.contains .moribund = false) :
    ((Nat.repeat (fun s => s.increment.1) k s).isSaturated = true ∨
      (Nat.repeat (fun s => s.increment.1) k s).count = s.count + k) ∧
    ∀ f, f ≠ .referenced →
      (Nat.repeat (fun s => s.increment.1) k s).contains f = s.contains f := by
  obtain hs | hs := hs
  · rw [repeat_increment_of_isSaturated hs]
    exact ⟨.inl hs, fun _ _ => rfl⟩
  induction k with
  | zero => exact ⟨.inr rfl, fun _ _ => rfl⟩
  | succ k ih =>
    obtain ⟨hcount, hflags⟩ := ih
    show ((Nat.repeat (fun s => s.increment.1) k s).increment.1.isSaturated = true ∨
      (Nat.repeat (fun s => s.increment.1) k s).increment.1.count = _) ∧
      ∀ f, f ≠ .referenced → (Nat.repeat (fun s => s.increment.1) k s).increment.1.contains f = _
    cases hsat : (Nat.repeat (fun s => s.increment.1) k s).isSaturated with
    | true =>
      rw [increment_of_isSaturated hsat]
      exact ⟨.inl hsat, hflags⟩
    | false =>
      rw [hsat] at hcount
      have hcount := hcount.resolve_left (by simp)
      refine ⟨.inr ?_, fun f hf => ?_⟩
      · rw [count_increment hsat, hcount, Nat.add_assoc]
      · rw [contains_increment hsat, hflags f hf]
        by_cases hm : f = .moribund
        · simp [hm, hs]
        · simp [hm, hf]

end Status

end HybridHeap
