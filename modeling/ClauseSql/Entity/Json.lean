import ClauseSql.Entity.Basic
import ClauseSql.Json.Reader

/-! Entities as JSON. The members of an entity stand beside its name and keys; a property names its
kind beside its own fields. Unknown fields are passed over and a field may not appear twice. Inside
an entity a record may also be an array of its fields in order, and a kind may be given by its
number. -/
namespace ClauseSql

namespace Json

def string? : Json → Option String
  | .string s => some s
  | _ => none

def bool? : Json → Option Bool
  | .bool b => some b
  | _ => none

def strings? : Json → Option (List String)
  | .array items => items.mapM string?
  | _ => none

def once? (fields : List (String × Json)) (name : String) : Option (Option Json) :=
  match fields.filter fun field => field.1 == name with
  | [] => some none
  | [field] => some (some field.2)
  | _ => none

/-- The values of the named fields of a record. In an array the last ones may be missing. -/
def record? (names : List String) : Json → Option (List (Option Json))
  | .object fields => names.mapM (once? fields)
  | .array items =>
    if items.length ≤ names.length then
      some (items.map some ++ List.replicate (names.length - items.length) none)
    else none
  | _ => none

end Json

namespace ColumnType

/-- A type is its name, or an object with the name as its only field and nothing in it. -/
def ofJson? : Json → Option ColumnType
  | .string name => ofName? name
  | .object [(name, .null)] => ofName? name
  | .object [(name, .object [])] => ofName? name
  | _ => none

end ColumnType

namespace Column

def lengthLimit : Nat := 0x100000000

def maxLengthOf? : Option Json → Option (Option UInt32)
  | none => some none
  | some .null => some none
  | some (.integer i) =>
    if 0 ≤ i ∧ i < lengthLimit then some (some i.toNat.toUInt32) else none
  | some _ => none

def nullableOf? : Option Json → Option Bool
  | none => some true
  | some value => value.bool?

def ofJson? (record : Json) : Option Column := do
  match ← record.record? ["column_name", "sql_type", "nullable", "max_length"] with
  | [some name, some type, nullable, maxLength] =>
    let name ← name.string?
    let type ← ColumnType.ofJson? type
    let nullable ← nullableOf? nullable
    let maxLength ← maxLengthOf? maxLength
    return { name, type, nullable, maxLength }
  | _ => none

def toJson (c : Column) : List (String × Json) :=
  [("column_name", .string c.name), ("sql_type", .string c.type.name),
   ("nullable", .bool c.nullable),
   ("max_length", match c.maxLength with
    | some length => .integer length.toNat
    | none => .null)]

end Column

namespace Property

inductive Kind where
  | primitive
  | complex
  | navigation
  deriving DecidableEq, Repr

def Kind.ofJson? : Json → Option Kind
  | .string "primitive" => some .primitive
  | .string "complex" => some .complex
  | .string "navigation" => some .navigation
  | .integer 0 => some .primitive
  | .integer 1 => some .complex
  | .integer 2 => some .navigation
  | _ => none

def single {α : Type} : List (Option α) → Option α
  | [reading] => reading
  | _ => none

def field? (fields : List (String × Json)) (name : String) : Option Json :=
  single ((fields.filter fun field => field.1 == name).map fun field => some field.2)

mutual
def ofJson? : Json → Option Property
  | .object fields => do
    match ← Kind.ofJson? (← field? fields "kind") with
    | .primitive => (Column.ofJson? (.object fields)).map .primitive
    | .complex => (single (membersIn fields)).map .complex
    | .navigation =>
      let qualifier ← (← field? fields "qualifier").string?
      let members ← single (targetsIn fields)
      return .navigation qualifier members
  | .array [kind, value] => do
    match ← Kind.ofJson? kind with
    | .primitive => (Column.ofJson? (.array [value])).map .primitive
    | .complex => (membersOf? value).map .complex
    | .navigation => none
  | .array [kind, value, target] => do
    match ← Kind.ofJson? kind with
    | .primitive => (Column.ofJson? (.array [value, target])).map .primitive
    | .complex => none
    | .navigation =>
      let qualifier ← value.string?
      let members ← structuredOf? target
      return .navigation qualifier members
  | .array (kind :: values) => do
    match ← Kind.ofJson? kind with
    | .primitive => (Column.ofJson? (.array values)).map .primitive
    | _ => none
  | _ => none
/-- Named properties, written as an object. Of two with one name the later one counts. -/
def membersOf? : Json → Option Members
  | .object fields => (allOf? fields).map Members.ofList
  | _ => none
def allOf? : List (String × Json) → Option (List (String × Property))
  | [] => some []
  | (name, value) :: fields => do
    let property ← ofJson? value
    let properties ← allOf? fields
    return (name, property) :: properties
def structuredOf? : Json → Option Members
  | .object fields => single (membersIn fields)
  | .array [value] => membersOf? value
  | _ => none
def membersIn : List (String × Json) → List (Option Members)
  | [] => []
  | (name, value) :: fields =>
    if name = "properties" then membersOf? value :: membersIn fields else membersIn fields
def targetsIn : List (String × Json) → List (Option Members)
  | [] => []
  | (name, value) :: fields =>
    if name = "target" then structuredOf? value :: targetsIn fields else targetsIn fields
end

mutual
def toJson : Property → Json
  | .primitive column => .object (("kind", .string "primitive") :: column.toJson)
  | .complex members =>
    .object [("kind", .string "complex"), ("properties", .object (allToJson members))]
  | .navigation qualifier members =>
    .object [("kind", .string "navigation"), ("qualifier", .string qualifier),
      ("target", .object [("properties", .object (allToJson members))])]
def allToJson : List (String × Property) → List (String × Json)
  | [] => []
  | (name, property) :: members => (name, toJson property) :: allToJson members
end

end Property

namespace Entity

def keysIn? (fields : List (String × Json)) : Option (List String) :=
  (Json.once? fields "keys").bind fun
    | none => some []
    | some keys => keys.strings?

def ofJson? : Json → Option Entity
  | .object fields => do
    let name ← (← Property.field? fields "name").string?
    let keys ← keysIn? fields
    let members ← Property.single (Property.membersIn fields)
    return { name, keys, members }
  | _ => none

def toJson (e : Entity) : Json :=
  .object [("name", .string e.name), ("keys", .array (e.keys.map .string)),
    ("properties", .object (Property.allToJson e.members))]

def parse (text : String) : Option Entity := (Json.parse text).bind ofJson?

end Entity

end ClauseSql
