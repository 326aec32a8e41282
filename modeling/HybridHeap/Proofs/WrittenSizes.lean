import Mathlib.Data.List.Basic
import Mathlib.Data.List.TakeWhile
import Mathlib.Data.Nat.Digits.Defs
import HybridHeap.Settings.Basic

/-!
# How sizes are written

A size is written as a decimal number, after a plus sign if one likes, with one of the letters `K`,
`M` and `G` in either case behind it if it is meant in powers of 1024, and with any blanks around
it. `Spells` says so without a word on reading. What is read is what is written so and fits in a
word; any other text is refused, and the refusal names where the text came from and quotes it with
its blanks.
-/

namespace HybridHeap

/-! ## Trimming -/

namespace Text

variable {cs lead core trail : List Char}

/-- Nothing but blanks is trimmed. -/
theorem exists_trimBlanks (cs : List Char) :
    ∃ lead trail, cs = lead ++ trimBlanks cs ++ trail ∧ (∀ c ∈ lead, isBlank c = true) ∧
      ∀ c ∈ trail, isBlank c = true := by
  let rest := (cs.dropWhile isBlank).reverse
  refine ⟨cs.takeWhile isBlank, (rest.takeWhile isBlank).reverse, ?_, ?_, ?_⟩
  · have hrest : rest.takeWhile isBlank ++ rest.dropWhile isBlank = rest :=
      List.takeWhile_append_dropWhile
    have hcs : cs.takeWhile isBlank ++ rest.reverse = cs := by
      rw [List.reverse_reverse, List.takeWhile_append_dropWhile]
    show cs = _ ++ (rest.dropWhile isBlank).reverse ++ _
    rw [List.append_assoc, ← List.reverse_append, hrest, hcs]
  · exact fun c hc => List.mem_takeWhile_imp hc
  · exact fun c hc => List.mem_takeWhile_imp (List.mem_reverse.1 hc)

/-- Blanks in front of a text that begins with none are all that is dropped there. -/
theorem dropWhile_isBlank (hlead : ∀ c ∈ lead, isBlank c = true)
    (hcore : ∀ c ∈ core.head?, isBlank c = false) :
    (lead ++ core).dropWhile isBlank = core := by
  rw [List.dropWhile_append_of_pos hlead]
  cases core with
  | nil => rfl
  | cons c core => exact List.dropWhile_cons_of_neg (by simp [hcore c rfl])

/-- Blanks around a text that has none at its ends are trimmed. -/
theorem trimBlanks_eq (hlead : ∀ c ∈ lead, isBlank c = true) (hcore : core ≠ [])
    (hhead : ∀ c ∈ core.head?, isBlank c = false) (hlast : ∀ c ∈ core.getLast?, isBlank c = false)
    (htrail : ∀ c ∈ trail, isBlank c = true) : trimBlanks (lead ++ core ++ trail) = core := by
  have hfront : (lead ++ core ++ trail).dropWhile isBlank = core ++ trail := by
    rw [List.append_assoc]
    refine dropWhile_isBlank hlead fun c hc => hhead c ?_
    rwa [List.head?_append_of_ne_nil _ hcore] at hc
  have hback : (trail.reverse ++ core.reverse).dropWhile isBlank = core.reverse :=
    dropWhile_isBlank (fun c hc => htrail c (List.mem_reverse.1 hc))
      fun c hc => hlast c (List.head?_reverse ▸ hc)
  unfold trimBlanks
  rw [hfront, List.reverse_append, hback, List.reverse_reverse]

end Text

/-- A number fits in a word if it is at most the largest one. -/
theorem Word.fit?_eq_some_iff {n m : Nat} : fit? n = some m ↔ n = m ∧ n ≤ largest := by
  unfold fit?
  split_ifs with h <;> simp [h]

namespace Settings

variable {c : Char} {cs ds digits : List Char} {n v : Nat}

/-! ## Numbers -/

/-- What digits stand for in decimal notation. -/
def decimal (ds : List Char) : Nat := Nat.ofDigits 10 (ds.reverse.map fun c => c.toNat - 48)

theorem decimal_cons (c : Char) (ds : List Char) :
    decimal (c :: ds) = 10 ^ ds.length * (c.toNat - 48) + decimal ds := by
  unfold decimal
  rw [List.reverse_cons, List.map_append, Nat.ofDigits_append, List.length_map,
    List.length_reverse, Nat.add_comm]
  simp [Nat.ofDigits_singleton]

/-- Digits are read onto a number as long as it fits in a word. -/
theorem parseDigits_eq_ok_iff (hn : n ≤ Word.largest) :
    parseDigits n ds = .ok v ↔ (∀ c ∈ ds, c.isDigit = true) ∧
      v = 10 ^ ds.length * n + decimal ds ∧ v ≤ Word.largest := by
  induction ds generalizing n with
  | nil =>
    have hvalue : 10 ^ ([] : List Char).length * n + decimal [] = n := by simp [decimal]
    unfold parseDigits
    rw [hvalue, Except.ok.injEq]
    constructor
    · rintro rfl
      exact ⟨by simp, rfl, hn⟩
    · exact fun ⟨_, heq, _⟩ => heq.symm
  | cons c ds ih =>
    have hvalue : 10 ^ (c :: ds).length * n + decimal (c :: ds) =
        10 ^ ds.length * (10 * n + (c.toNat - 48)) + decimal ds := by
      rw [decimal_cons, List.length_cons, pow_succ]
      ring
    rw [hvalue, List.forall_mem_cons]
    unfold parseDigits digitValue?
    cases hc : c.isDigit with
    | false => simp
    | true =>
      simp only [if_true, true_and]
      split_ifs with hfits
      · exact ih hfits
      · -- What is there so far is too large already, and further digits make it no smaller.
        refine iff_of_false (by simp) fun ⟨_, heq, hle⟩ => hfits ?_
        have hpos : 0 < 10 ^ ds.length := by positivity
        calc 10 * n + (c.toNat - 48) ≤ 10 ^ ds.length * (10 * n + (c.toNat - 48)) :=
              Nat.le_mul_of_pos_left _ hpos
          _ ≤ v := by omega
          _ ≤ Word.largest := hle

/-- No digit is blank. -/
theorem isBlank_of_isDigit (hc : c.isDigit = true) : Text.isBlank c = false := by
  have hrange : 48 ≤ c.toNat ∧ c.toNat ≤ 57 := by
    simpa [Char.isDigit, UInt32.le_iff_toNat_le] using hc
  simp only [Text.isBlank, Bool.or_eq_false_iff, Bool.and_eq_false_iff, decide_eq_false_iff_not,
    beq_eq_false_iff_ne]
  omega

/-- A number is written with one or more digits, after a plus sign or not. -/
structure Numeral (cs digits : List Char) : Prop where
  sign : cs = digits ∨ cs = '+' :: digits
  some_digit : digits ≠ []
  digits : ∀ c ∈ digits, c.isDigit = true

namespace Numeral

theorem ne_nil (h : Numeral cs digits) : cs ≠ [] := by
  obtain rfl | rfl := h.sign
  · exact h.some_digit
  · exact List.cons_ne_nil _ _

/-- A number ends in a digit. -/
theorem exists_getLast? (h : Numeral cs digits) :
    ∃ c, cs.getLast? = some c ∧ c.isDigit = true := by
  obtain ⟨c, hc⟩ := Option.isSome_iff_exists.1 (List.getLast?_isSome.2 h.some_digit)
  refine ⟨c, ?_, h.digits c (List.mem_of_mem_getLast? hc)⟩
  obtain rfl | rfl := h.sign
  · exact hc
  · rw [List.getLast?_cons, hc, Option.getD_some]

/-- There are no blanks in a number. -/
theorem not_isBlank (h : Numeral cs digits) (hc : c ∈ cs) : Text.isBlank c = false := by
  have hdigits : ∀ d ∈ digits, Text.isBlank d = false := fun d hd =>
    isBlank_of_isDigit (h.digits d hd)
  obtain rfl | rfl := h.sign
  · exact hdigits c hc
  · obtain rfl | hc := List.mem_cons.1 hc
    · rfl
    · exact hdigits c hc

end Numeral

/-- What is read as a number is what is written as one and fits in a word. -/
theorem parseNumber_eq_ok_iff :
    parseNumber cs = .ok v ↔
      ∃ digits, Numeral cs digits ∧ v = decimal digits ∧ v ≤ Word.largest := by
  have hread : ∀ ds, parseDigits 0 ds = .ok v ↔ (∀ c ∈ ds, c.isDigit = true) ∧
      v = decimal ds ∧ v ≤ Word.largest := fun ds => by
    rw [parseDigits_eq_ok_iff (Nat.zero_le _), Nat.mul_zero, Nat.zero_add]
  unfold parseNumber
  split
  · refine iff_of_false (by simp) fun ⟨digits, hnumeral, _⟩ => ?_
    exact hnumeral.some_digit (by simpa using hnumeral.sign)
  · -- A plus sign alone is neither a digit nor followed by one.
    refine iff_of_false (by simp) fun ⟨digits, ⟨hsign, hsome, hdigits⟩, _⟩ => ?_
    obtain rfl | hplus := hsign
    · exact absurd (hdigits '+' (by simp)) (by decide)
    · exact hsome (by simpa using hplus)
  · rename_i ds hne
    rw [hread]
    constructor
    · exact fun ⟨hdigits, hv⟩ => ⟨ds, ⟨.inr rfl, fun hnil => hne (by rw [hnil]), hdigits⟩, hv⟩
    · rintro ⟨digits, ⟨hsign, -, hdigits⟩, hv⟩
      obtain rfl | hplus := hsign
      · exact absurd (hdigits '+' (by simp)) (by decide)
      · cases hplus
        exact ⟨hdigits, hv⟩
  · rename_i hnil hone hplus
    rw [hread]
    constructor
    · exact fun ⟨hdigits, hv⟩ => ⟨cs, ⟨.inl rfl, hnil, hdigits⟩, hv⟩
    · rintro ⟨digits, ⟨hsign, -, hdigits⟩, hv⟩
      obtain rfl | hcs := hsign
      · exact ⟨hdigits, hv⟩
      · exact absurd hcs (hplus digits)

/-! ## Suffixes -/

/-- The letters that a size may end in, and the powers of 1024 that they stand for. -/
def suffixes : List (Char × Nat) := [('K', 1), ('k', 1), ('M', 2), ('m', 2), ('G', 3), ('g', 3)]

/-- A character with a given letter for upper case is that letter or stands as far above it as the
lower case letters do. -/
theorem eq_of_toUpper_eq {u : Char} (hu : c.toUpper = u) : c = u ∨ c.val = u.val + 32 := by
  unfold Char.toUpper at hu
  split at hu
  · -- Going up by the distance and down again comes back to where it was, in words.
    subst hu
    right
    show c.val = c.val + ('A'.val - 'a'.val) + 32
    rw [UInt32.add_assoc]
    exact (UInt32.add_zero _).symm
  · exact .inl hu

/-- A character counts as a suffix if its upper case does, and for the same power. -/
theorem mem_suffixes_of_toUpper {u l : Char} {k : Nat} (hu : c.toUpper = u)
    (hl : l.val = u.val + 32) (hupper : (u, k) ∈ suffixes) (hlower : (l, k) ∈ suffixes) :
    (c, k) ∈ suffixes := by
  obtain rfl | hc := eq_of_toUpper_eq hu
  · exact hupper
  · obtain rfl : c = l := Char.ext (hc.trans hl.symm)
    exact hlower

/-- The characters that count as a suffix, and what they multiply by. -/
theorem suffixFactor?_eq_some_iff :
    suffixFactor? c = some n ↔ ∃ k, (c, k) ∈ suffixes ∧ n = 1024 ^ k := by
  constructor
  · intro hc
    unfold suffixFactor? at hc
    split at hc
    case h_4 => cases hc
    all_goals
      rename_i hu
      cases hc
    · exact ⟨1, mem_suffixes_of_toUpper (l := 'k') hu rfl (by decide) (by decide), rfl⟩
    · exact ⟨2, mem_suffixes_of_toUpper (l := 'm') hu rfl (by decide) (by decide), rfl⟩
    · exact ⟨3, mem_suffixes_of_toUpper (l := 'g') hu rfl (by decide) (by decide), rfl⟩
  · rintro ⟨k, hmem, rfl⟩
    simp only [suffixes, List.mem_cons, Prod.mk.injEq, List.not_mem_nil, or_false] at hmem
    obtain ⟨rfl, rfl⟩ | ⟨rfl, rfl⟩ | ⟨rfl, rfl⟩ | ⟨rfl, rfl⟩ | ⟨rfl, rfl⟩ | ⟨rfl, rfl⟩ := hmem <;>
      rfl

/-- A suffix is a letter from the table or nothing, which leaves a size as it is. -/
def IsSuffix (suffix : List Char) (k : Nat) : Prop :=
  suffix = [] ∧ k = 0 ∨ ∃ c, (c, k) ∈ suffixes ∧ suffix = [c]

/-- No digit is a suffix. -/
theorem suffixFactor?_of_isDigit (hc : c.isDigit = true) : suffixFactor? c = none := by
  refine Option.eq_none_iff_forall_ne_some.2 fun n hn => ?_
  obtain ⟨k, hmem, -⟩ := suffixFactor?_eq_some_iff.1 hn
  have hletters : ∀ p ∈ suffixes, p.1.isDigit = false := by decide
  exact absurd hc (by simp [hletters _ hmem])

/-- What is split off a text is a suffix, and the factor is the one it stands for. -/
theorem splitSuffix_spec (cs : List Char) :
    ∃ suffix k, IsSuffix suffix k ∧ cs = (splitSuffix cs).1 ++ suffix ∧
      (splitSuffix cs).2 = 1024 ^ k := by
  unfold splitSuffix
  split
  · rename_i factor hfactor
    obtain ⟨c, hc, hf⟩ := Option.bind_eq_some_iff.1 hfactor
    obtain ⟨k, hmem, rfl⟩ := suffixFactor?_eq_some_iff.1 hf
    exact ⟨[c], k, .inr ⟨c, hmem, rfl⟩, (List.dropLast_append_getLast? c hc).symm, rfl⟩
  · exact ⟨[], 0, .inl ⟨rfl, rfl⟩, (List.append_nil cs).symm, rfl⟩

/-- Behind a number a suffix is recognised. -/
theorem splitSuffix_append {number suffix : List Char} {k : Nat} (hnumber : Numeral number digits)
    (hsuffix : IsSuffix suffix k) : splitSuffix (number ++ suffix) = (number, 1024 ^ k) := by
  unfold splitSuffix
  obtain ⟨rfl, rfl⟩ | ⟨c, hmem, rfl⟩ := hsuffix
  · obtain ⟨c, hc, hdigit⟩ := hnumber.exists_getLast?
    rw [List.append_nil, hc, Option.bind_some, suffixFactor?_of_isDigit hdigit]
    rfl
  · rw [List.getLast?_concat, Option.bind_some, suffixFactor?_eq_some_iff.2 ⟨k, hmem, rfl⟩,
      List.dropLast_concat]

/-! ## Sizes -/

/-- A text spells a size if it is, between blanks, a number and a suffix, and the size is what the
digits stand for times the power of 1024 that the suffix stands for. -/
def Spells (text : String) (n : Nat) : Prop :=
  ∃ lead number digits suffix trail k,
    text.toList = lead ++ (number ++ suffix) ++ trail ∧
      (∀ c ∈ lead, Text.isBlank c = true) ∧ (∀ c ∈ trail, Text.isBlank c = true) ∧
      Numeral number digits ∧ IsSuffix suffix k ∧ n = decimal digits * 1024 ^ k

/-- Trimming takes away just what stands around a number and its suffix. -/
theorem trimBlanks_number {lead number suffix trail : List Char} {k : Nat}
    (hlead : ∀ c ∈ lead, Text.isBlank c = true) (htrail : ∀ c ∈ trail, Text.isBlank c = true)
    (hnumber : Numeral number digits) (hsuffix : IsSuffix suffix k) :
    Text.trimBlanks (lead ++ (number ++ suffix) ++ trail) = number ++ suffix := by
  have hne := hnumber.ne_nil
  refine Text.trimBlanks_eq hlead (List.append_ne_nil_of_left_ne_nil hne _) (fun c hc => ?_)
    (fun c hc => ?_) htrail
  · rw [List.head?_append_of_ne_nil _ hne] at hc
    exact hnumber.not_isBlank (List.mem_of_mem_head? hc)
  · obtain ⟨rfl, -⟩ | ⟨d, hmem, rfl⟩ := hsuffix
    · rw [List.append_nil] at hc
      exact hnumber.not_isBlank (List.mem_of_mem_getLast? hc)
    · have hletters : ∀ p ∈ suffixes, Text.isBlank p.1 = false := by decide
      rw [List.getLast?_concat] at hc
      obtain rfl := Option.mem_some_iff.1 hc
      exact hletters (_, k) hmem

/-- A size is read from what spells it and fits in a word. -/
theorem parseSize_eq_ok_iff {text : String} :
    parseSize text = .ok n ↔ Spells text n ∧ n ≤ Word.largest := by
  unfold parseSize
  constructor
  · intro hread
    obtain ⟨lead, trail, htext, hlead, htrail⟩ := Text.exists_trimBlanks text.toList
    obtain ⟨suffix, k, hsuffix, hcore, hfactor⟩ :=
      splitSuffix_spec (Text.trimBlanks text.toList)
    dsimp only at hread
    split at hread
    · cases hread
    rename_i v hnumber
    obtain ⟨digits, hnumeral, rfl, -⟩ := parseNumber_eq_ok_iff.1 hnumber
    split at hread
    · rename_i size hfits
      cases hread
      obtain ⟨rfl, hle⟩ := Word.fit?_eq_some_iff.1 hfits
      refine ⟨⟨lead, _, digits, suffix, trail, k, ?_, hlead, htrail, hnumeral, hsuffix, ?_⟩, hle⟩
      · rw [← hcore]
        exact htext
      · rw [hfactor]
    · cases hread
  · rintro ⟨⟨lead, number, digits, suffix, trail, k, htext, hlead, htrail, hnumber, hsuffix, rfl⟩,
      hle⟩
    -- A power of 1024 is not zero, so the number fits in a word if the size does.
    have hdigits : decimal digits ≤ Word.largest :=
      (Nat.le_mul_of_pos_right _ (by positivity)).trans hle
    rw [htext, trimBlanks_number hlead htrail hnumber hsuffix, splitSuffix_append hnumber hsuffix]
    dsimp only
    rw [parseNumber_eq_ok_iff.2 ⟨digits, hnumber, rfl, hdigits⟩]
    dsimp only
    rw [Word.fit?_eq_some_iff.2 ⟨rfl, hle⟩]

/-- A suffix is one byte long, so that what is left without it ends where a character does. -/
theorem utf8Size_of_isSuffix {suffix : List Char} {k : Nat} (hsuffix : IsSuffix suffix k)
    (hc : c ∈ suffix) : c.utf8Size = 1 := by
  obtain ⟨rfl, -⟩ | ⟨d, hmem, rfl⟩ := hsuffix
  · cases hc
  · have hletters : ∀ p ∈ suffixes, p.1.utf8Size = 1 := by decide
    obtain rfl := List.mem_singleton.1 hc
    exact hletters (_, k) hmem

/-- Sizes are read by their grammar: a text is read as a size just if it spells that size and the
size fits in a word, any other text is refused with the name and the whole of it, and cutting off a
suffix never cuts through a character. -/
theorem readSize_exact (source value : String) :
    (∀ n, readSize source value = .ok n ↔ Spells value n ∧ n ≤ Word.largest) ∧
      ((¬∃ n, Spells value n ∧ n ≤ Word.largest) ↔
        ∃ fault, readSize source value = .error (.invalidValue source value (.size fault))) ∧
      ∃ suffix : List Char,
        Text.trimBlanks value.toList =
            (splitSuffix (Text.trimBlanks value.toList)).1 ++ suffix ∧
          suffix.length ≤ 1 ∧ ∀ c ∈ suffix, c.utf8Size = 1 := by
  have hread : ∀ n, readSize source value = .ok n ↔ Spells value n ∧ n ≤ Word.largest :=
    fun n => by
      rw [← parseSize_eq_ok_iff]
      unfold readSize
      cases parseSize value <;> simp [Except.mapError]
  refine ⟨hread, ⟨fun hnone => ?_, ?_⟩, ?_⟩
  · cases hparse : parseSize value with
    | error fault => exact ⟨fault, by rw [readSize, hparse]; rfl⟩
    | ok n => exact absurd ⟨n, parseSize_eq_ok_iff.1 hparse⟩ hnone
  · rintro ⟨fault, hfault⟩ ⟨n, hn⟩
    cases hfault.symm.trans ((hread n).2 hn)
  · obtain ⟨suffix, k, hsuffix, hcore, -⟩ := splitSuffix_spec (Text.trimBlanks value.toList)
    refine ⟨suffix, hcore, ?_, fun c hc => utf8Size_of_isSuffix hsuffix hc⟩
    obtain ⟨rfl, -⟩ | ⟨c, -, rfl⟩ := hsuffix
    · exact Nat.zero_le _
    · exact Nat.le_refl _

/-- Blanks beyond ASCII are trimmed. -/
example : readSize "RCMARK_GC_MARGIN" "\u3000+0016m\u00a0" = .ok (16 * 1024 * 1024) := by
  decide +kernel

/-- The sign of the kelvin is not the letter that it looks like. -/
example : readSize "RCMARK_GC_MARGIN" "16\u212a" =
    .error (.invalidValue "RCMARK_GC_MARGIN" "16\u212a" (.size (.number .badDigit))) := by
  decide +kernel

end Settings

end HybridHeap
