import HybridHeap.Derive.Source

/-!
# Deriving tracing

The implementation of tracing that is derived for an item: a call for every field that is traced,
in the order of declaration. A struct refers to its fields through `self`; an enum is matched, and
every arm binds the fields that it traces. Every type parameter gets a bound.
-/

namespace HybridHeap.Derive

/-- How a call refers to the field that it traces. -/
inductive Receiver where
  /-- A named field of `self`. -/
  | field (name : String)
  /-- A field of `self` by its position. -/
  | position (i : Nat)
  /-- A name that a pattern binds. -/
  | binding (name : String)
  deriving DecidableEq

/-- A pattern for one variant. -/
inductive Pattern where
  /-- Binds some fields by name and ignores the rest. -/
  | named (names : List String)
  /-- Binds fields by position, or ignores them. -/
  | tuple (names : List (Option String))
  | unit
  deriving DecidableEq

/-- An arm of a match. -/
structure Arm where
  variant : String
  pattern : Pattern
  calls : List Receiver
  deriving DecidableEq

/-- The body of a derived implementation. -/
inductive TraceBody where
  | calls (receivers : List Receiver)
  | arms (arms : List Arm)
  deriving DecidableEq

/-- A derived implementation. -/
structure TraceImpl where
  item : String
  generics : Separated GenericParam
  /-- The predicates of the item, then a bound per type parameter. -/
  predicates : Separated String
  body : TraceBody

/-- The name bound to the field at a position. -/
def boundName (i : Nat) : String := s!"__field{i}"

/-- The calls for the fields of a struct. -/
def structCalls : Fields → List Receiver
  | .named fields =>
    (fields.items.filter fun (_, f) => f.isTraced).map fun (name, _) => .field name
  | .tuple fields =>
    (fields.items.zipIdx.filter fun (f, _) => f.isTraced).map fun (_, i) => .position i
  | .unit => []

/-- The arm for a variant. -/
def arm (v : Variant) : Arm :=
  match v.fields with
  | .named fields =>
    let names := (fields.items.filter fun (_, f) => f.isTraced).map Prod.fst
    { variant := v.name, pattern := .named names, calls := names.map .binding }
  | .tuple fields =>
    let names := fields.items.zipIdx.map fun (f, i) =>
      if f.isTraced then some (boundName i) else none
    { variant := v.name, pattern := .tuple names, calls := (names.filterMap id).map .binding }
  | .unit => { variant := v.name, pattern := .unit, calls := [] }

/-- The trait that is implemented. -/
def traceTrait : String := "::rcmark_heap::Trace"

/-- The predicates of an item, then a bound per type parameter. -/
def tracePredicates (item : Item) : Separated String :=
  let bounds := (item.generics.items.filterMap GenericParam.typeName?).map (· ++ ":" ++ traceTrait)
  { items := item.predicates.items ++ bounds
    endsInSeparator := item.predicates.endsInSeparator && bounds.isEmpty }

/-- The implementation derived for an item; `none` for a union. -/
def traceImpl? (item : Item) : Option TraceImpl :=
  let body? := match item.body with
    | .struct fields => some (TraceBody.calls (structCalls fields))
    | .enum variants => some (.arms (variants.items.map arm))
    | .union _ => none
  body?.map fun body =>
    { item := item.name, generics := item.generics, predicates := tracePredicates item, body }

/-- The receiver as it is written. -/
def Receiver.text : Receiver → String
  | field name => "&self." ++ name
  | position i => s!"&self.{i}"
  | binding name => name

/-- A call as it is written. -/
def Receiver.call (r : Receiver) : String := traceTrait ++ "::trace(" ++ r.text ++ ",tracer_fn);"

/-- Calls as they are written. -/
def callsText (calls : List Receiver) : String := String.join (calls.map Receiver.call)

/-- The text between braces that touch it. -/
def braced (text : String) : String := "\x7b" ++ text ++ "\x7d"

/-- A pattern as it is written after the name of its variant. -/
def Pattern.text : Pattern → String
  | named names => braced (String.join (names.map (· ++ ",")) ++ "..")
  | tuple names => "(" ++ ",".intercalate (names.map (·.getD "_")) ++ ")"
  | unit => ""

/-- An arm as it is written. -/
def Arm.text (a : Arm) : String :=
  "Self::" ++ a.variant ++ a.pattern.text ++ "=>" ++ braced (callsText a.calls)

/-- A body as it is written. -/
def TraceBody.text : TraceBody → String
  | calls receivers => callsText receivers
  | arms variants => "matchself" ++ braced (String.join (variants.map Arm.text))

/-- An implementation as it is written. -/
def TraceImpl.text (t : TraceImpl) : String :=
  "unsafeimpl" ++ paramsText GenericParam.declaration t.generics ++ traceTrait ++ "for" ++ t.item ++
    paramsText GenericParam.use t.generics ++ predicatesText t.predicates ++
    braced ("#[allow(unused_variables)]fntrace(&self,tracer_fn:&mut::rcmark_heap::TracerFn)" ++
      braced t.body.text)

/-- What is said of a union. -/
def unionText : String := "Trace cannot be derived for a union, implement it by hand"

/-- What is derived for an item, as source text. -/
def expansion (item : Item) : String :=
  match traceImpl? item with
  | some t => t.text
  | none => "::core::compile_error!" ++ braced ("\"" ++ unionText ++ "\"")

/-- The text without any blanks. -/
def withoutBlanks (text : String) : String :=
  String.ofList (text.toList.filter fun c => !Text.isBlank c)

/-- What is derived for the item that is made of the given parts, without blanks; `none` if they do
not make an item. -/
def derive? (parts : ItemParts) : Option String :=
  (Item.ofSource? parts.source).map fun item => withoutBlanks (expansion item)

end HybridHeap.Derive
