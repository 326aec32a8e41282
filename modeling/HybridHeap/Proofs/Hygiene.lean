import HybridHeap.Proofs.Deriving

/-!
# What the names in a derived implementation refer to

A call in a derived implementation has two arguments, the field that is traced and the tracer that
the method is given. Each is written as a name or, for a field of a struct, as a path from `self`.
What a name refers to depends on what else has it where the call stands.

In the method for a struct nothing has the tracer's name but the tracer, unless a const parameter
does. In an arm for a variant with named fields, these are bound by the names that they have. So a
field called `tracer_fn` takes the place of the tracer in all calls of its arm, if it is traced.
-/

namespace HybridHeap.Derive

/-- What an argument can refer to. -/
inductive Referent where
  /-- The field at a place. -/
  | field (place : Nat)
  /-- The tracer that the method is given. -/
  | tracer
  /-- A const parameter of the item. -/
  | constant
  deriving DecidableEq

/-- The name of the tracer. -/
def tracerName : String := "tracer_fn"

/-- The names that have a meaning where a call stands, besides the tracer's: those of the const
parameters, and those that are bound to fields, with their places. -/
structure Scope where
  constants : List String
  bindings : List (String × Nat)

namespace Scope

variable {s : Scope} {name : String}

/-- What a name refers to. The name of a constant cannot be given to anything else by a pattern or
a parameter, and the names in a pattern hide those outside of it. -/
def resolve? (s : Scope) (name : String) : Option Referent :=
  if bareName name ∈ s.constants then some .constant
  else
    match s.bindings.lookup (bareName name) with
    | some place => some (.field place)
    | none => if bareName name = tracerName then some .tracer else none

/-- What the first argument of a call refers to. -/
def receiver? (s : Scope) (fields : Fields) : Receiver → Option Referent
  | .field name => (fields.place? name).map .field
  | .position i =>
    match fields with
    | .tuple fields => if i < fields.items.length then some (.field i) else none
    | _ => none
  | .binding name => s.resolve? name

/-- In a scope no name is bound twice, and none that is a constant's is bound. -/
structure IsLawful (s : Scope) : Prop where
  nodup : (s.bindings.map Prod.fst).Nodup
  free : ∀ slot ∈ s.bindings, slot.1 ∉ s.constants

end Scope

/-- A name is looked up where it is the only one. -/
theorem lookup_eq_some_iff_mem {l : List (String × Nat)} (hnodup : (l.map Prod.fst).Nodup)
    {name : String} {place : Nat} : l.lookup name = some place ↔ (name, place) ∈ l := by
  constructor
  · intro hlookup
    obtain ⟨before, after, rfl, -⟩ := List.lookup_eq_some_iff.1 hlookup
    simp
  · intro hmem
    obtain ⟨before, after, rfl⟩ := List.append_of_mem hmem
    refine List.lookup_eq_some_iff.2 ⟨before, after, rfl, fun slot hslot => ?_⟩
    rw [List.map_append, List.map_cons] at hnodup
    have hdisjoint := (List.nodup_append.1 hnodup).2.2 slot.1 (List.mem_map_of_mem hslot) name
      List.mem_cons_self
    exact bne_iff_ne.2 (Ne.symm hdisjoint)

namespace Scope

variable {s : Scope} {name : String}

theorem resolve?_eq_field_iff (hs : s.IsLawful) {place : Nat} :
    s.resolve? name = some (.field place) ↔ (bareName name, place) ∈ s.bindings := by
  unfold resolve?
  by_cases hconstant : bareName name ∈ s.constants
  · rw [if_pos hconstant]
    -- The name of a constant is not bound.
    exact ⟨fun h => (by cases h), fun h => absurd hconstant (hs.free _ h)⟩
  · rw [if_neg hconstant, ← lookup_eq_some_iff_mem hs.nodup]
    cases s.bindings.lookup (bareName name) with
    | some other => simp
    | none =>
      by_cases hname : bareName name = tracerName <;> simp [hname]

theorem bareName_tracerName : bareName tracerName = tracerName := by decide +kernel

theorem resolve?_tracerName_iff :
    s.resolve? tracerName = some .tracer ↔
      tracerName ∉ s.constants ∧ ∀ slot ∈ s.bindings, slot.1 ≠ tracerName := by
  unfold resolve?
  rw [bareName_tracerName]
  by_cases hconstant : tracerName ∈ s.constants
  · rw [if_pos hconstant]
    exact ⟨fun h => (by cases h), fun h => absurd hconstant h.1⟩
  · rw [if_neg hconstant, if_pos rfl]
    have hfree : s.bindings.lookup tracerName = none ↔
        ∀ slot ∈ s.bindings, slot.1 ≠ tracerName := by
      rw [List.lookup_eq_none_iff]
      exact forall₂_congr fun slot _ => by rw [bne_iff_ne, ne_comm]
    rw [← hfree]
    cases s.bindings.lookup tracerName <;> simp [hconstant]

end Scope

/-! ## Arms -/

/-- The scope in an arm: what its pattern binds, as far as the names are not those of constants. -/
def Arm.scope (constants : List String) (fields : Fields) (a : Arm) : Scope :=
  { constants
    bindings := ((a.pattern.slots? fields).getD []).filter fun slot => slot.1 ∉ constants }

/-- A field has the name of the tracer where it would be bound. -/
def Fields.HidesTracer (fields : Fields) (place : Nat) : Prop :=
  ∃ name f, fields.list[place]? = some (some name, f) ∧ ¬ f.IsMarked ∧ bareName name = tracerName

section

variable {constants : List String} {v : Variant}

theorem mem_bindings_arm (hlawful : v.fields.IsLawful) {slot : String × Nat} :
    slot ∈ ((arm v).scope constants v.fields).bindings ↔
      slot ∈ v.fields.traced.map slotOf ∧ slot.1 ∉ constants := by
  unfold Arm.scope
  rw [slots_arm hlawful, Option.getD_some, List.mem_filter, decide_eq_true_iff]

theorem scope_arm_isLawful (hlawful : v.fields.IsLawful) :
    ((arm v).scope constants v.fields).IsLawful where
  nodup := by
    unfold Arm.scope
    rw [slots_arm hlawful, Option.getD_some]
    exact (List.filter_sublist.map Prod.fst).nodup (nodup_slotOf hlawful)
  free slot hslot := ((mem_bindings_arm hlawful).1 hslot).2

/-- A name in a pattern refers to its field unless it is that of a constant. -/
theorem resolve?_arm_field_iff (hlawful : v.fields.IsLawful)
    {e : (Option String × Field) × Nat} (he : e ∈ v.fields.traced) :
    ((arm v).scope constants v.fields).resolve? (Fields.slotName e) = some (.field e.2) ↔
      bareName (Fields.slotName e) ∉ constants := by
  rw [Scope.resolve?_eq_field_iff (scope_arm_isLawful hlawful), mem_bindings_arm hlawful]
  exact and_iff_right (List.mem_map.2 ⟨e, he, rfl⟩)

/-- Just a name that a field has can be the tracer's, not one that is made up. -/
theorem hidesTracer_iff {fields : Fields} {place : Nat} :
    fields.HidesTracer place ↔ (tracerName, place) ∈ fields.traced.map slotOf := by
  constructor
  · rintro ⟨name, f, hget, hmarked, hname⟩
    refine List.mem_map.2 ⟨((some name, f), place), ?_, Prod.ext hname rfl⟩
    exact Fields.mem_traced.2 ⟨hget, Field.isTraced_iff.2 hmarked⟩
  · intro hmem
    obtain ⟨⟨⟨name?, f⟩, i⟩, he, hslot⟩ := List.mem_map.1 hmem
    obtain ⟨hget, htraced⟩ := Fields.mem_traced.1 he
    obtain ⟨hname, rfl⟩ := Prod.mk.inj hslot
    cases name? with
    | some name => exact ⟨name, f, hget, Field.isTraced_iff.1 htraced, hname⟩
    | none =>
      -- A made-up name does not begin like the tracer's.
      have htoList : (boundName i).toList = tracerName.toList := by
        rw [← bareName_boundName]
        exact congrArg String.toList hname
      rw [toList_boundName] at htoList
      cases htoList

theorem resolve?_arm_hidden (hlawful : v.fields.IsLawful) (htracer : tracerName ∉ constants)
    {place : Nat} (hhides : v.fields.HidesTracer place) :
    ((arm v).scope constants v.fields).resolve? tracerName = some (.field place) := by
  rw [Scope.resolve?_eq_field_iff (scope_arm_isLawful hlawful), Scope.bareName_tracerName,
    mem_bindings_arm hlawful]
  exact ⟨hidesTracer_iff.1 hhides, htracer⟩

theorem resolve?_arm_tracer_iff (hlawful : v.fields.IsLawful) :
    ((arm v).scope constants v.fields).resolve? tracerName = some .tracer ↔
      tracerName ∉ constants ∧ ∀ place, ¬ v.fields.HidesTracer place := by
  rw [Scope.resolve?_tracerName_iff]
  refine and_congr_right fun htracer => ⟨fun hfree place hhides => ?_, fun hhides => ?_⟩
  · exact hfree (tracerName, place)
      ((mem_bindings_arm hlawful).2 ⟨hidesTracer_iff.1 hhides, htracer⟩) rfl
  · rintro ⟨name, place⟩ hslot rfl
    exact hhides place (hidesTracer_iff.2 ((mem_bindings_arm hlawful).1 hslot).1)

end

/-! ## Bodies -/

/-- What the names in an arm refer to. -/
structure Arm.Refers (constants : List String) (v : Variant) (places : List Nat)
    (names : List String) (a : Arm) : Prop where
  traces : a.Traces constants v places names
  /-- The first argument of a call refers to its field unless its name is a constant's. -/
  first : List.Forall₂ (fun place name =>
    (a.scope constants v.fields).receiver? v.fields (.binding name) = some (.field place) ↔
      bareName name ∉ constants) places names
  /-- The second one refers to the tracer unless this name is a constant's or bound to a field. -/
  second : (a.scope constants v.fields).resolve? tracerName = some .tracer ↔
    tracerName ∉ constants ∧ ∀ place, ¬ v.fields.HidesTracer place
  hidden : tracerName ∉ constants → ∀ place, v.fields.HidesTracer place →
    (a.scope constants v.fields).resolve? tracerName = some (.field place)

/-- What the names in a body refer to. -/
inductive TraceBody.Refers (constants : List String) : Body → TraceBody → Prop
  | struct {fields : Fields} {places : List Nat} {calls : List Receiver}
    (hplaces : fields.Unmarked places)
    (hfirst : List.Forall₂ (fun place call =>
      Scope.receiver? { constants, bindings := [] } fields call = some (.field place)) places calls)
    (hsecond : Scope.resolve? { constants, bindings := [] } tracerName = some .tracer ↔
      tracerName ∉ constants) :
    Refers constants (.struct fields) (.calls calls)
  | enum {variants : Separated Variant} {arms : List Arm}
    (harms : List.Forall₂ (fun v a => ∃ places names, a.Refers constants v places names)
      variants.items arms) :
    Refers constants (.enum variants) (.arms arms)

theorem refers_arm {constants : List String} {v : Variant} (hlawful : v.fields.IsLawful) :
    (arm v).Refers constants v (v.fields.traced.map Prod.snd)
      (v.fields.traced.map Fields.slotName) where
  traces := traces_arm hlawful
  first := forall₂_map fun _ he => resolve?_arm_field_iff hlawful he
  second := resolve?_arm_tracer_iff hlawful
  hidden htracer _ hhides := resolve?_arm_hidden hlawful htracer hhides

/-- A path from `self` leads to its field whatever names there are. -/
theorem receiver?_receiver (s : Scope) {fields : Fields} (hlawful : fields.IsLawful)
    {e : (Option String × Field) × Nat} (he : e ∈ fields.traced) :
    s.receiver? fields (Fields.receiver e) = some (.field e.2) := by
  cases fields with
  | named fields =>
    have hplace := Fields.place?_slotName hlawful (Fields.mem_traced.1 he).1
    rw [traced_named] at he
    obtain ⟨e, -, rfl⟩ := List.mem_map.1 he
    exact congrArg (Option.map Referent.field) hplace
  | tuple fields =>
    obtain ⟨hlt, -⟩ := List.getElem?_eq_some_iff.1 (Fields.mem_traced.1 he).1
    rw [traced_tuple] at he
    obtain ⟨e, -, rfl⟩ := List.mem_map.1 he
    exact if_pos (by simpa [Fields.list] using hlt)
  | unit => cases he

theorem refers_struct (constants : List String) {fields : Fields} (hlawful : fields.IsLawful) :
    (TraceBody.calls (structCalls fields)).Refers constants (.struct fields) := by
  rw [structCalls_eq]
  refine .struct fields.unmarked_traced ?_ ?_
  · exact forall₂_map fun _ he => receiver?_receiver _ hlawful he
  · rw [Scope.resolve?_tracerName_iff]
    simp

theorem refers_enum {constants : List String} {variants : Separated Variant}
    (hlawful : ∀ v ∈ variants.items, v.fields.IsLawful) :
    (TraceBody.arms (variants.items.map arm)).Refers constants (.enum variants) :=
  .enum (List.forall₂_map_right_iff.2 (List.forall₂_same.2 fun v hv =>
    ⟨_, _, refers_arm (hlawful v hv)⟩))

end HybridHeap.Derive
