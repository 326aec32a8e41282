import Mathlib.Data.List.Forall2
import Mathlib.Data.List.Nodup
import HybridHeap.Derive.Expansion

/-!
# What is derived

The implementation that is derived for an item traces the fields without the mark `#[notrace]`, in
the order of declaration. For a struct this is said of the calls alone, which reach the fields
through `self`. An arm of a match reaches them through names, so that for a variant it is said of
the pattern too: it matches every value of the variant, and binds the values of just these fields.

The pattern of a variant with named fields binds them by the names they have. Where such a name is
that of a const parameter it stands for the constant, not for the field, and the pattern is not one
that the language accepts.
-/

namespace HybridHeap.Derive

/-! ## Fields -/

/-- A field is marked by an attribute with the path `notrace`, whatever follows the path. -/
def Field.IsMarked (f : Field) : Prop :=
  ∃ a ∈ f.attributes, a.isAbsolute = false ∧ a.path = ["notrace"]

theorem Field.isTraced_iff {f : Field} : f.isTraced = true ↔ ¬ f.IsMarked := by
  simp [isTraced, IsMarked, Attribute.isNotrace]

/-- A name without the sign of a raw identifier, which makes no difference to what it refers to. -/
def bareName (name : String) : String :=
  match name.toList with
  | 'r' :: '#' :: rest => String.ofList rest
  | _ => name

/-- What is made of the things in a list in two ways is related if it is for each of them. -/
theorem forall₂_map {α β γ : Type} {R : β → γ → Prop} {f : α → β} {g : α → γ} {l : List α}
    (h : ∀ a ∈ l, R (f a) (g a)) : List.Forall₂ R (l.map f) (l.map g) :=
  List.forall₂_map_left_iff.2 (List.forall₂_map_right_iff.2 (List.forall₂_same.2 h))

namespace Fields

variable {fields : Fields}

/-- The fields in the order of declaration, with the names of those that have one. -/
def list : Fields → List (Option String × Field)
  | named fields => fields.items.map fun (name, f) => (some name, f)
  | tuple fields => fields.items.map fun f => (none, f)
  | unit => []

/-- The places of the fields that are not marked, in the order of declaration. -/
structure Unmarked (fields : Fields) (places : List Nat) : Prop where
  ascending : places.Pairwise (· < ·)
  mem_iff : ∀ i, i ∈ places ↔ ∃ name? f, fields.list[i]? = some (name?, f) ∧ ¬ f.IsMarked

/-- What the language asks of the names of fields: they are identifiers, and they differ. -/
structure IsLawful (fields : Fields) : Prop where
  nodup : (fields.list.filterMap fun e => e.1.map bareName).Nodup
  notUnderscore : ∀ entry ∈ fields.list, entry.1 ≠ some "_"

instance (fields : Fields) : Decidable fields.IsLawful :=
  decidable_of_iff ((fields.list.filterMap fun e => e.1.map bareName).Nodup ∧
      ∀ entry ∈ fields.list, entry.1 ≠ some "_")
    ⟨fun h => ⟨h.1, h.2⟩, fun h => ⟨h.nodup, h.notUnderscore⟩⟩

/-- The place of the field with a name. -/
def place? (fields : Fields) (name : String) : Option Nat :=
  fields.list.findIdx? fun e => e.1.map bareName == some (bareName name)

/-- How a method refers to the field at a place through `self`. -/
inductive ReachedBy (fields : Fields) : Nat → Receiver → Prop
  | field {i : Nat} {name : String} {f : Field} (h : fields.list[i]? = some (some name, f)) :
    ReachedBy fields i (.field name)
  | position {i : Nat} {f : Field} (h : fields.list[i]? = some (none, f)) :
    ReachedBy fields i (.position i)

/-- The name for the field at a place in a pattern: its own, else one that is made up. -/
inductive CalledBy (fields : Fields) : Nat → String → Prop
  | own {i : Nat} {name : String} {f : Field} (h : fields.list[i]? = some (some name, f)) :
    CalledBy fields i name
  | madeUp {i : Nat} {f : Field} (h : fields.list[i]? = some (none, f)) :
    CalledBy fields i (boundName i)

/-- The fields that are traced, with their places. -/
def traced (fields : Fields) : List ((Option String × Field) × Nat) :=
  fields.list.zipIdx.filter fun e => e.1.2.isTraced

theorem mem_traced {e : (Option String × Field) × Nat} :
    e ∈ fields.traced ↔ fields.list[e.2]? = some e.1 ∧ e.1.2.isTraced = true := by
  unfold traced
  rw [List.mem_filter, List.mem_zipIdx_iff_getElem?]

theorem unmarked_traced (fields : Fields) : fields.Unmarked (fields.traced.map Prod.snd) where
  ascending := by
    have hsub : (fields.traced.map Prod.snd).Sublist (fields.list.zipIdx.map Prod.snd) :=
      List.filter_sublist.map Prod.snd
    rw [List.zipIdx_map_snd] at hsub
    exact List.Pairwise.sublist hsub List.pairwise_lt_range'
  mem_iff i := by
    constructor
    · intro hi
      obtain ⟨⟨⟨name?, f⟩, j⟩, he, rfl⟩ := List.mem_map.1 hi
      obtain ⟨hget, htraced⟩ := mem_traced.1 he
      exact ⟨name?, f, hget, Field.isTraced_iff.1 htraced⟩
    · rintro ⟨name?, f, hget, hmarked⟩
      exact List.mem_map.2
        ⟨((name?, f), i), mem_traced.2 ⟨hget, Field.isTraced_iff.2 hmarked⟩, rfl⟩

/-- The name in a pattern for a field with its place. -/
def slotName (e : (Option String × Field) × Nat) : String := e.1.1.getD (boundName e.2)

/-- The receiver for a field of `self` with its place. -/
def receiver (e : (Option String × Field) × Nat) : Receiver :=
  match e.1.1 with
  | some name => .field name
  | none => .position e.2

theorem calledBy_traced (fields : Fields) :
    List.Forall₂ fields.CalledBy (fields.traced.map Prod.snd) (fields.traced.map slotName) := by
  refine forall₂_map ?_
  rintro ⟨⟨name?, f⟩, i⟩ he
  have hget := (mem_traced.1 he).1
  cases name? with
  | some name => exact .own hget
  | none => exact .madeUp hget

theorem reachedBy_traced (fields : Fields) :
    List.Forall₂ fields.ReachedBy (fields.traced.map Prod.snd) (fields.traced.map receiver) := by
  refine forall₂_map ?_
  rintro ⟨⟨name?, f⟩, i⟩ he
  have hget := (mem_traced.1 he).1
  cases name? with
  | some name => exact .field hget
  | none => exact .position hget

end Fields

/-! ## Calls -/

/-- The things for which a test holds are the same with their places and without. -/
theorem map_fst_filter_zipIdx {α : Type} (p : α → Bool) (l : List α) :
    (l.zipIdx.filter fun e => p e.1).map Prod.fst = l.filter p := by
  have hfst : (l.zipIdx.map Prod.fst).filter p = l.filter p := by rw [List.zipIdx_map_fst]
  rw [← hfst, List.filter_map]
  rfl

theorem traced_named (fields : Separated (String × Field)) :
    (Fields.named fields).traced =
      (fields.items.zipIdx.filter fun e => e.1.2.isTraced).map
        (Prod.map (fun field => (some field.1, field.2)) id) := by
  unfold Fields.traced Fields.list
  rw [List.zipIdx_map, List.filter_map]
  rfl

theorem traced_tuple (fields : Separated Field) :
    (Fields.tuple fields).traced =
      (fields.items.zipIdx.filter fun e => e.1.isTraced).map (Prod.map (none, ·) id) := by
  unfold Fields.traced Fields.list
  rw [List.zipIdx_map, List.filter_map]
  rfl

theorem structCalls_eq (fields : Fields) :
    structCalls fields = fields.traced.map Fields.receiver := by
  cases fields with
  | named fields =>
    have hfields := map_fst_filter_zipIdx (fun field => field.2.isTraced) fields.items
    change (fields.items.filter fun field => field.2.isTraced).map
      (fun field => Receiver.field field.1) = _
    rw [← hfields, traced_named, List.map_map, List.map_map]
    rfl
  | tuple fields =>
    rw [traced_tuple, List.map_map]
    rfl
  | unit => rfl

/-! ## Patterns -/

/-- The identifiers in a pattern with the places of the fields that they stand at; `none` if this is
not a pattern for these fields. -/
def Pattern.slots? (fields : Fields) : Pattern → Option (List (String × Nat))
  | named names => names.mapM fun name => (fields.place? name).map (bareName name, ·)
  | tuple names =>
    match fields with
    | .tuple fields =>
      if names.length = fields.items.length then
        some (names.zipIdx.filterMap fun e => e.1.map (bareName ·, e.2))
      else none
    | _ => none
  | unit =>
    match fields with
    | .unit => some []
    | _ => none

/-- Match a value by the values of its fields at their places: what the names are bound to. An
identifier binds whatever it stands at. But the language does not accept the name of a constant
here, nor the same name twice. -/
def Pattern.match? {α : Type} (constants : List String) (fields : Fields) (values : Nat → α)
    (p : Pattern) : Option (List (String × α)) := do
  let slots ← p.slots? fields
  if (slots.map Prod.fst).Nodup ∧ ∀ slot ∈ slots, slot.1 ∉ constants then
    some (slots.map fun slot => (slot.1, values slot.2))
  else none

/-- The name for the field at an entry as it is bound, with the place. -/
def slotOf (e : (Option String × Field) × Nat) : String × Nat := (bareName (Fields.slotName e), e.2)

/-- Where a step gives something each time, so does its repetition. -/
theorem mapM_map_eq_some {α β γ : Type} {f : α → β} {g : β → Option γ} {k : α → γ} (l : List α)
    (hg : ∀ a ∈ l, g (f a) = some (k a)) : (l.map f).mapM g = some (l.map k) := by
  induction l with
  | nil => rfl
  | cons a l ih =>
    rw [List.map_cons, List.mapM_cons, hg a List.mem_cons_self,
      ih fun b hb => hg b (List.mem_cons_of_mem a hb)]
    rfl

theorem map_filter_eq_filterMap {α β : Type} (p : α → Bool) (f : α → β) (l : List α) :
    (l.filter p).map f = l.filterMap fun a => if p a then some (f a) else none := by
  rw [← List.filterMap_eq_map, List.filterMap_filter]
  rfl

theorem zipIdx_zipIdx {α : Type} (l : List α) (k : Nat) :
    (l.zipIdx k).zipIdx k = (l.zipIdx k).map fun e => (e, e.2) := by
  induction l generalizing k with
  | nil => rfl
  | cons a l ih => rw [List.zipIdx_cons, List.zipIdx_cons, List.map_cons, ih]

/-- Since names differ, the place of a field is found by its name. -/
theorem Fields.place?_eq_some {fields : Fields} (hlawful : fields.IsLawful) {i : Nat}
    {name : String} {f : Field} (hget : fields.list[i]? = some (some name, f)) :
    fields.place? name = some i := by
  obtain ⟨hi, hgetElem⟩ := List.getElem?_eq_some_iff.1 hget
  refine List.findIdx?_eq_some_iff_getElem.2 ⟨hi, by simp [hgetElem], fun j hj hname => ?_⟩
  -- A field found before it would have the same name.
  have hdiffer := List.pairwise_iff_getElem.1 (List.pairwise_filterMap.1 hlawful.nodup)
    j i (by omega) hi hj (bareName name) (by simpa using hname) (bareName name) (by simp [hgetElem])
  exact hdiffer rfl

/-- So it is by the name that a pattern has for it. -/
theorem Fields.place?_slotName {fields : Separated (String × Field)}
    (hlawful : (named fields).IsLawful) {e : (Option String × Field) × Nat}
    (hget : (named fields).list[e.2]? = some e.1) :
    (named fields).place? (slotName e) = some e.2 := by
  obtain ⟨⟨name, f⟩, -, hname⟩ := List.mem_map.1 (List.mem_of_getElem? hget)
  have hslot : slotName e = name := by rw [slotName, ← hname]; rfl
  rw [← hname] at hget
  rw [hslot]
  exact place?_eq_some hlawful hget

theorem map_slotName_named (fields : Separated (String × Field)) :
    (fields.items.filter fun field => field.2.isTraced).map Prod.fst =
      (Fields.named fields).traced.map Fields.slotName := by
  have hfields := map_fst_filter_zipIdx (fun field => field.2.isTraced) fields.items
  rw [← hfields, traced_named, List.map_map, List.map_map]
  rfl

/-- The names in the pattern for fields without names, and the gaps between them. -/
def tupleNames (fields : Separated Field) : List (Option String) :=
  fields.items.zipIdx.map fun e => if e.1.isTraced then some (boundName e.2) else none

theorem filterMap_tupleNames (fields : Separated Field) :
    (tupleNames fields).filterMap id = (Fields.tuple fields).traced.map Fields.slotName := by
  unfold tupleNames
  rw [traced_tuple, List.filterMap_map, List.map_map, map_filter_eq_filterMap]
  rfl

theorem slots_tupleNames (fields : Separated Field) :
    ((tupleNames fields).zipIdx.filterMap fun e => e.1.map (bareName ·, e.2)) =
      (Fields.tuple fields).traced.map slotOf := by
  unfold tupleNames
  rw [List.zipIdx_map, zipIdx_zipIdx, List.map_map, List.filterMap_map, traced_tuple, List.map_map,
    map_filter_eq_filterMap]
  refine List.filterMap_congr fun e _ => ?_
  simp only [Function.comp_apply, Prod.map]
  split <;> rfl

theorem arm_variant (v : Variant) : (arm v).variant = v.name := by
  unfold arm
  split <;> rfl

theorem arm_calls (v : Variant) :
    (arm v).calls = (v.fields.traced.map Fields.slotName).map .binding := by
  obtain ⟨attributes, name, fields, value⟩ := v
  cases fields with
  | named fields =>
    rw [← map_slotName_named]
    rfl
  | tuple fields =>
    rw [← filterMap_tupleNames]
    rfl
  | unit => rfl

theorem slots_arm {v : Variant} (hlawful : v.fields.IsLawful) :
    (arm v).pattern.slots? v.fields = some (v.fields.traced.map slotOf) := by
  obtain ⟨attributes, name, fields, value⟩ := v
  cases fields with
  | named fields =>
    change ((fields.items.filter fun field => field.2.isTraced).map Prod.fst).mapM _ = _
    rw [map_slotName_named]
    refine mapM_map_eq_some _ fun e he => ?_
    rw [Fields.place?_slotName hlawful (Fields.mem_traced.1 he).1]
    rfl
  | tuple fields =>
    -- Every field has its entry, so each name stands at the place of its field.
    have hlength : (tupleNames fields).length = fields.items.length := by simp [tupleNames]
    change (if (tupleNames fields).length = fields.items.length then _ else none) = _
    rw [if_pos hlength]
    exact congrArg some (slots_tupleNames fields)
  | unit => rfl

theorem toList_boundName (i : Nat) :
    (boundName i).toList = "__field".toList ++ Nat.toDigits 10 i := by
  change ("__field" ++ i.repr).toList = _
  rw [String.toList_append, Nat.toList_repr]

/-- Made-up names differ from place to place. -/
theorem boundName_injective : Function.Injective boundName := by
  intro i j h
  have hdigits : Nat.toDigits 10 i = Nat.toDigits 10 j := by
    have htoList := congrArg String.toList h
    rwa [toList_boundName, toList_boundName, List.append_right_inj] at htoList
  calc i = Nat.ofDigitChars 10 (Nat.toDigits 10 i) 0 := Nat.ofDigitChars_ten_toDigits.symm
    _ = Nat.ofDigitChars 10 (Nat.toDigits 10 j) 0 := by rw [hdigits]
    _ = j := Nat.ofDigitChars_ten_toDigits

theorem bareName_boundName (i : Nat) : bareName (boundName i) = boundName i := by
  unfold bareName
  rw [toList_boundName]
  rfl

/-- The name in a pattern is known by the place alone. -/
theorem slotName_injective {fields : Fields} (hlawful : fields.IsLawful)
    {e e' : (Option String × Field) × Nat} (he : e ∈ fields.traced) (he' : e' ∈ fields.traced)
    (hname : bareName (Fields.slotName e) = bareName (Fields.slotName e')) : e.2 = e'.2 := by
  cases fields with
  | named fields =>
    -- Both names are looked up, and names that are alike are found at the same place.
    have hplace : ∀ {e}, e ∈ (Fields.named fields).traced →
        (Fields.named fields).place? (Fields.slotName e) = some e.2 := by
      intro e he
      obtain ⟨hget, -⟩ := Fields.mem_traced.1 he
      exact Fields.place?_slotName hlawful hget
    have hplaces : (Fields.named fields).place? (Fields.slotName e) =
        (Fields.named fields).place? (Fields.slotName e') := by
      unfold Fields.place?
      rw [hname]
    rw [hplace he, hplace he'] at hplaces
    exact Option.some.inj hplaces
  | tuple fields =>
    have hmadeUp : ∀ {e}, e ∈ (Fields.tuple fields).traced →
        Fields.slotName e = boundName e.2 := by
      intro e he
      rw [traced_tuple] at he
      obtain ⟨e, -, rfl⟩ := List.mem_map.1 he
      rfl
    rw [hmadeUp he, hmadeUp he', bareName_boundName, bareName_boundName] at hname
    exact boundName_injective hname
  | unit => cases he

/-- The names that are bound for the fields of a variant differ. -/
theorem nodup_slotOf {fields : Fields} (hlawful : fields.IsLawful) :
    ((fields.traced.map slotOf).map Prod.fst).Nodup := by
  have hplaces : fields.traced.Pairwise fun e e' => e.2 ≠ e'.2 :=
    List.pairwise_map.1 ((fields.unmarked_traced).ascending.imp Nat.ne_of_lt)
  rw [List.map_map]
  exact List.pairwise_map.2 (hplaces.imp_of_mem fun he he' hne hname =>
    hne (slotName_injective hlawful he he' hname))

section

variable {v : Variant} {constants : List String} {α : Type} (values : Nat → α)

/-- The pattern of an arm matches every value of its variant, and binds the fields that are traced.
-/
theorem match_arm (hlawful : v.fields.IsLawful)
    (hfree : ∀ name ∈ v.fields.traced.map Fields.slotName, bareName name ∉ constants) :
    (arm v).pattern.match? constants v.fields values =
      some (((v.fields.traced.map Fields.slotName).map bareName).zip
        ((v.fields.traced.map Prod.snd).map values)) := by
  have hslots : ∀ slot ∈ v.fields.traced.map slotOf, slot.1 ∉ constants := by
    intro slot hslot
    obtain ⟨e, he, rfl⟩ := List.mem_map.1 hslot
    exact hfree _ (List.mem_map_of_mem he)
  unfold Pattern.match?
  rw [slots_arm hlawful, Option.bind_eq_bind, Option.bind_some,
    if_pos ⟨nodup_slotOf hlawful, hslots⟩, List.map_map, List.map_map, List.map_map,
    List.zip_map']
  rfl

/-- But not if one of these has the name of a constant. -/
theorem match_arm_eq_none (hlawful : v.fields.IsLawful)
    (hconstant : ∃ name ∈ v.fields.traced.map Fields.slotName, bareName name ∈ constants) :
    (arm v).pattern.match? constants v.fields values = none := by
  obtain ⟨name, hname, hmem⟩ := hconstant
  obtain ⟨e, he, rfl⟩ := List.mem_map.1 hname
  unfold Pattern.match?
  rw [slots_arm hlawful, Option.bind_eq_bind, Option.bind_some,
    if_neg fun h => h.2 (slotOf e) (List.mem_map_of_mem he) hmem]

end

/-! ## The where clause -/

/-- Texts are written with a separator after each but the last, which has one only if the row ends
in one. The places may be counted from anywhere. -/
theorem join_separated (separator : String) (ends : Bool) (texts : List String) (k : Nat)
    (htexts : texts ≠ []) :
    String.join ((texts.zipIdx k).map fun e =>
        if (decide (e.2 + 1 < k + texts.length) || ends) = true then e.1 ++ separator else e.1) =
      separator.intercalate texts ++ if ends then separator else "" := by
  induction texts generalizing k with
  | nil => exact absurd rfl htexts
  | cons text rest ih =>
    cases rest with
    | nil => cases ends <;> simp [String.join]
    | cons next rest =>
      -- This text is not the last one, and the rest are counted from the next place on.
      have hlength : k + (text :: next :: rest).length = k + 1 + (next :: rest).length := by
        simp only [List.length_cons]
        omega
      have hintercalate : separator.intercalate (text :: next :: rest) =
          text ++ separator ++ separator.intercalate (next :: rest) :=
        String.intercalate_cons_of_ne_nil (List.cons_ne_nil next rest)
      rw [List.zipIdx_cons, List.map_cons, String.join_cons, if_pos (by simp), hlength,
        ih (k + 1) (List.cons_ne_nil next rest), hintercalate]
      simp only [String.append_assoc]

/-- A row is written as its things with separators between them. -/
theorem Separated.text_eq (separator : String) (s : Separated String) (hs : s.items ≠ []) :
    s.text separator =
      separator.intercalate s.items ++ if s.endsInSeparator then separator else "" := by
  have hjoin := join_separated separator s.endsInSeparator s.items 0 hs
  rw [Nat.zero_add] at hjoin
  unfold text textBy textOfPairs pairs
  rw [List.map_map, ← hjoin]
  rfl

/-- Predicates are written with commas between them after a `where`, if there are any. -/
theorem predicatesText_eq (predicates : Separated String) :
    predicatesText predicates =
      if predicates.items = [] then ""
      else "where" ++ (",".intercalate predicates.items ++
        if predicates.endsInSeparator then "," else "") := by
  unfold predicatesText
  by_cases hitems : predicates.items = []
  · rw [if_pos hitems, hitems]
    rfl
  · rw [if_neg hitems, if_neg (by simpa using hitems), Separated.text_eq "," predicates hitems]

/-! ## Derived implementations -/

/-- What an arm does for a variant. It names the fields without the mark, which are at these places,
and traces what it has named. Its pattern matches every value of the variant and binds the names to
the values at these places, unless one of the names is that of a constant. -/
structure Arm.Traces (constants : List String) (v : Variant) (places : List Nat)
    (names : List String) (a : Arm) : Prop where
  variant : a.variant = v.name
  unmarked : v.fields.Unmarked places
  called : List.Forall₂ v.fields.CalledBy places names
  calls : a.calls = names.map .binding
  matched : (∀ name ∈ names, bareName name ∉ constants) → ∀ {α : Type} (values : Nat → α),
    a.pattern.match? constants v.fields values =
      some ((names.map bareName).zip (places.map values))
  unmatched : (∃ name ∈ names, bareName name ∈ constants) → ∀ {α : Type} (values : Nat → α),
    a.pattern.match? constants v.fields values = none

/-- What a body does for an item: it traces the fields without the mark. -/
inductive TraceBody.Traces (constants : List String) : Body → TraceBody → Prop
  | struct {fields : Fields} {places : List Nat} {calls : List Receiver}
    (hplaces : fields.Unmarked places) (hcalls : List.Forall₂ fields.ReachedBy places calls) :
    Traces constants (.struct fields) (.calls calls)
  | enum {variants : Separated Variant} {arms : List Arm}
    (harms : List.Forall₂ (fun v a => ∃ places names, a.Traces constants v places names)
      variants.items arms) :
    Traces constants (.enum variants) (.arms arms)

/-- What the language asks of the names of an item's fields. -/
def Body.IsLawful : Body → Prop
  | struct fields => fields.IsLawful
  | enum variants => ∀ v ∈ variants.items, v.fields.IsLawful
  | union _ => True

instance : (body : Body) → Decidable body.IsLawful
  | .struct fields => inferInstanceAs (Decidable fields.IsLawful)
  | .enum variants => inferInstanceAs (Decidable (∀ v ∈ variants.items, v.fields.IsLawful))
  | .union _ => .isTrue trivial

/-- The names of an item's const parameters. -/
def Item.constants (item : Item) : List String :=
  item.generics.items.filterMap fun
    | .const _ name _ _ => some (bareName name)
    | _ => none

theorem traces_arm {constants : List String} {v : Variant} (hlawful : v.fields.IsLawful) :
    (arm v).Traces constants v (v.fields.traced.map Prod.snd)
      (v.fields.traced.map Fields.slotName) where
  variant := arm_variant v
  unmarked := v.fields.unmarked_traced
  called := v.fields.calledBy_traced
  calls := arm_calls v
  matched hfree _ values := match_arm values hlawful hfree
  unmatched hconstant _ values := match_arm_eq_none values hlawful hconstant

theorem traces_struct (constants : List String) (fields : Fields) :
    (TraceBody.calls (structCalls fields)).Traces constants (.struct fields) := by
  rw [structCalls_eq]
  exact .struct fields.unmarked_traced fields.reachedBy_traced

theorem traces_enum {constants : List String} {variants : Separated Variant}
    (hlawful : ∀ v ∈ variants.items, v.fields.IsLawful) :
    (TraceBody.arms (variants.items.map arm)).Traces constants (.enum variants) :=
  .enum (List.forall₂_map_right_iff.2 (List.forall₂_same.2 fun v hv =>
    ⟨_, _, traces_arm (hlawful v hv)⟩))

theorem traceImpl?_eq_none_iff {item : Item} :
    traceImpl? item = none ↔ ∃ fields, item.body = .union fields := by
  unfold traceImpl?
  cases item.body <;> simp

/-- What is derived is made for the item, with calls for a struct and arms for an enum. -/
theorem eq_of_traceImpl?_eq_some {item : Item} {t : TraceImpl} (ht : traceImpl? item = some t) :
    t.item = item.name ∧ t.generics = item.generics ∧ t.predicates = tracePredicates item ∧
      ((∃ fields, item.body = .struct fields ∧ t.body = .calls (structCalls fields)) ∨
        ∃ variants, item.body = .enum variants ∧ t.body = .arms (variants.items.map arm)) := by
  unfold traceImpl? at ht
  cases hbody : item.body with
  | struct fields =>
    rw [hbody] at ht
    cases ht
    exact ⟨rfl, rfl, rfl, .inl ⟨fields, rfl, rfl⟩⟩
  | enum variants =>
    rw [hbody] at ht
    cases ht
    exact ⟨rfl, rfl, rfl, .inr ⟨variants, rfl, rfl⟩⟩
  | union fields =>
    rw [hbody] at ht
    cases ht

theorem traces_of_traceImpl? {item : Item} {t : TraceImpl} (hlawful : item.body.IsLawful)
    (ht : traceImpl? item = some t) : t.body.Traces item.constants item.body := by
  obtain ⟨-, -, -, ⟨fields, hitem, hbody⟩ | ⟨variants, hitem, hbody⟩⟩ :=
    eq_of_traceImpl?_eq_some ht
  · rw [hitem, hbody]
    exact traces_struct item.constants fields
  · rw [hitem] at hlawful
    rw [hitem, hbody]
    exact traces_enum hlawful

/-- The item `enum Value<'a, T, const N: usize> where T: Copy { Nil, Cons(T, #[notrace] &'a u8, T),
Closure { env: T, #[notrace] arity: [u8; N] } }`. -/
def valueItem : Item :=
  let notrace : Attribute := { isAbsolute := false, path := ["notrace"], text := "#[notrace]" }
  let field (attributes : List Attribute) (type : String) : Field :=
    { attributes, visibility := "", type }
  let variant (name : String) (fields : Fields) : Variant :=
    { attributes := [], name, fields, value := "" }
  { name := "Value"
    generics :=
      { items := [.lifetime "" "'a" "", .type "" "T" "" "", .const "" "N" "usize" ""]
        endsInSeparator := false }
    predicates := { items := ["T:Copy"], endsInSeparator := false }
    body := .enum
      { items :=
          [variant "Nil" .unit,
            variant "Cons" (.tuple
              { items := [field [] "T", field [notrace] "&'au8", field [] "T"]
                endsInSeparator := false }),
            variant "Closure" (.named
              { items := [("env", field [] "T"), ("arity", field [notrace] "[u8;N]")]
                endsInSeparator := false })]
        endsInSeparator := false } }

/-- The item `enum E<const N: usize, ..> { A { name: GcEdge<A> } }` with const parameters and a name
of one's choice. -/
def wrapperItem (parameters : List String) (name : String) : Item :=
  { name := "E"
    generics :=
      { items := parameters.map fun parameter => .const "" parameter "usize" ""
        endsInSeparator := false }
    predicates := .empty
    body := .enum
      { items :=
          [{ attributes := []
             name := "A"
             fields := .named
              { items := [(name, { attributes := [], visibility := "", type := "GcEdge<A>" })]
                endsInSeparator := false }
             value := "" }]
        endsInSeparator := false } }

end HybridHeap.Derive
