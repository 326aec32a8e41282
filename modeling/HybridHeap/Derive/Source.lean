import HybridHeap.Derive.Grammar
import HybridHeap.Derive.Lexeme

/-!
# Reading items

From the parts of an item to its source text, and from source text to the item. The parts are texts
of any kind; whether they make an item is found out by reading the source that they are put into.
-/

namespace HybridHeap.Derive

/-- The style in which fields are written. -/
inductive Style where
  | named
  | tuple
  | unit

/-- The parts of a field. -/
structure FieldParts where
  name : String
  type : String
  /-- The texts inside of attributes. -/
  attributes : List String

/-- The parts of the fields of a struct or a variant. -/
structure FieldsParts where
  style : Style
  fields : List FieldParts

/-- The parts of what an item consists of. -/
inductive BodyParts where
  | struct (fields : FieldsParts)
  | enum (variants : List (String × FieldsParts))
  | union (fields : List FieldParts)

/-- The parts of an item. -/
structure ItemParts where
  name : String
  generics : List String
  predicates : List String
  body : BodyParts

/-- Texts with commas between them. -/
def commaSeparated (texts : List String) : String := ", ".intercalate texts

/-- The text between braces. -/
def inBraces (text : String) : String := "\x7b " ++ text ++ " \x7d"

/-- The source of a field's attributes. -/
def FieldParts.attributesSource (f : FieldParts) : String :=
  String.join (f.attributes.map fun a => "#[" ++ a ++ "] ")

/-- The source of a field with its name. -/
def FieldParts.namedSource (f : FieldParts) : String :=
  f.attributesSource ++ f.name ++ ": " ++ f.type

/-- The source of a field without a name. -/
def FieldParts.tupleSource (f : FieldParts) : String := f.attributesSource ++ f.type

/-- The source of fields with names. -/
def namedFieldsSource (fields : List FieldParts) : String :=
  inBraces (commaSeparated (fields.map FieldParts.namedSource))

/-- The source of fields. -/
def FieldsParts.source (fs : FieldsParts) : String :=
  match fs.style with
  | .named => " " ++ namedFieldsSource fs.fields
  | .tuple => "(" ++ commaSeparated (fs.fields.map FieldParts.tupleSource) ++ ")"
  | .unit => ""

/-- The source of an item. -/
def ItemParts.source (p : ItemParts) : String :=
  let generics := if p.generics.isEmpty then "" else "<" ++ commaSeparated p.generics ++ ">"
  let head := p.name ++ generics
  let predicates := if p.predicates.isEmpty then "" else " where " ++ commaSeparated p.predicates
  match p.body with
  | .struct fields => match fields.style with
    | .named => "struct " ++ head ++ predicates ++ fields.source
    | _ => "struct " ++ head ++ fields.source ++ predicates ++ ";"
  | .enum variants =>
    "enum " ++ head ++ predicates ++ " " ++
      inBraces (commaSeparated (variants.map fun (name, fields) => name ++ fields.source))
  | .union fields => "union " ++ head ++ predicates ++ " " ++ namedFieldsSource fields

/-- The item that a source text is; `none` if it is none. -/
def Item.ofSource? (source : String) : Option Item := do
  let trees ← trees? source
  let (item, rest) ← Reader.item (.forLength source.length) trees
  if rest.isEmpty then some item else none

end HybridHeap.Derive
