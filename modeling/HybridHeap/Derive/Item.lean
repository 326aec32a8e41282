import HybridHeap.Derive.Separated

/-!
# Items to derive for

A struct, an enum or a union: its name, its generic parameters, its predicates, and its fields with
their attributes. Types, bounds and values are kept as text, so that an item can be written again.
-/

namespace HybridHeap.Derive

/-- An attribute, by the path that names it. -/
structure Attribute where
  /-- Whether the path begins at the root. -/
  isAbsolute : Bool
  path : List String
  /-- The whole attribute as text. -/
  text : String

/-- The attribute by which a field is left out. -/
def Attribute.isNotrace (a : Attribute) : Bool := !a.isAbsolute && a.path == ["notrace"]

/-- Attributes in a row as they are written. -/
def attributesText (attributes : List Attribute) : String :=
  String.join (attributes.map Attribute.text)

/-- A field, its name apart. -/
structure Field where
  attributes : List Attribute
  visibility : String
  type : String

/-- Whether the field is traced, which it is unless an attribute leaves it out. -/
def Field.isTraced (f : Field) : Bool := !f.attributes.any Attribute.isNotrace

/-- A field as it is written without a name. -/
def Field.text (f : Field) : String := attributesText f.attributes ++ f.visibility ++ f.type

/-- A field as it is written with its name. -/
def Field.namedText (name : String) (f : Field) : String :=
  attributesText f.attributes ++ f.visibility ++ name ++ ":" ++ f.type

/-- Fields with names as they are written. -/
def namedFieldsText (fields : Separated (String × Field)) : String :=
  "\x7b" ++ fields.textBy "," (fun (name, f) => f.namedText name) ++ "\x7d"

/-- The fields of a struct or of a variant. -/
inductive Fields where
  | named (fields : Separated (String × Field))
  | tuple (fields : Separated Field)
  | unit

/-- Fields as they are written. -/
def Fields.text : Fields → String
  | named fields => namedFieldsText fields
  | tuple fields => "(" ++ fields.textBy "," Field.text ++ ")"
  | unit => ""

/-- A variant of an enum. -/
structure Variant where
  attributes : List Attribute
  name : String
  fields : Fields
  /-- The value with an equals sign before it, if there is one. -/
  value : String

/-- A variant as it is written. -/
def Variant.text (v : Variant) : String :=
  attributesText v.attributes ++ v.name ++ v.fields.text ++ v.value

/-- What an item consists of. -/
inductive Body where
  | struct (fields : Fields)
  | enum (variants : Separated Variant)
  | union (fields : Separated (String × Field))

/-- A generic parameter, its attributes and bounds as text, and its default with what is written
before it. -/
inductive GenericParam where
  | lifetime (attributes name bounds : String)
  | type (attributes name bounds default : String)
  | const (attributes name type default : String)

/-- Bounds with the colon before them, if there are any. -/
def afterColon (bounds : String) : String := if bounds.isEmpty then "" else ":" ++ bounds

namespace GenericParam

/-- Whether the parameter is a lifetime. -/
def isLifetime : GenericParam → Bool
  | lifetime _ _ _ => true
  | _ => false

/-- The name of a parameter that is a type. -/
def typeName? : GenericParam → Option String
  | type _ name _ _ => some name
  | _ => none

/-- A parameter with its bounds, without its default. -/
def declaration : GenericParam → String
  | lifetime attributes name bounds => attributes ++ name ++ afterColon bounds
  | type attributes name bounds _ => attributes ++ name ++ afterColon bounds
  | const attributes name valueType _ => attributes ++ "const" ++ name ++ ":" ++ valueType

/-- The default of a parameter with what is written before it, if there is one. -/
def default : GenericParam → String
  | lifetime _ _ _ => ""
  | type _ _ _ default => default
  | const _ _ _ default => default

/-- A parameter with its bounds and its default. -/
def text (p : GenericParam) : String := p.declaration ++ p.default

/-- A parameter as it is used. -/
def use : GenericParam → String
  | lifetime _ name _ => name
  | type _ name _ _ => name
  | const _ name _ _ => name

end GenericParam

/-- Parameters in angle brackets, lifetimes first. -/
def paramsText (write : GenericParam → String) (params : Separated GenericParam) : String :=
  if params.items.isEmpty then ""
  else "<" ++ params.textWithFirst "," GenericParam.isLifetime write ++ ">"

/-- Predicates as they are written. -/
def predicatesText (predicates : Separated String) : String :=
  if predicates.items.isEmpty then "" else "where" ++ predicates.text ","

/-- An item. -/
structure Item where
  name : String
  generics : Separated GenericParam
  predicates : Separated String
  body : Body

/-- An item as it is written. Predicates stand before braces, but after parentheses. -/
def Item.text (item : Item) : String :=
  let head := item.name ++ paramsText GenericParam.text item.generics
  let predicates := predicatesText item.predicates
  match item.body with
  | .struct (.named fields) => "struct" ++ head ++ predicates ++ namedFieldsText fields
  | .struct fields => "struct" ++ head ++ fields.text ++ predicates ++ ";"
  | .enum variants =>
    "enum" ++ head ++ predicates ++ "\x7b" ++ variants.textBy "," Variant.text ++ "\x7d"
  | .union fields => "union" ++ head ++ predicates ++ namedFieldsText fields

end HybridHeap.Derive
