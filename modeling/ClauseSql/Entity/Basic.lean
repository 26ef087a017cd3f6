import ClauseSql.Value

/-! The description of an entity: named properties, each of which is a column, a complex type with
members of its own, or a navigation to another entity's members. -/
namespace ClauseSql

inductive ColumnType where
  | text
  | guid
  | integer
  | decimal
  | boolean
  | date
  | dateTime
  | time
  deriving DecidableEq, Repr

namespace ColumnType

def all : List ColumnType := [text, guid, integer, decimal, boolean, date, dateTime, time]

def name : ColumnType → String
  | text => "text"
  | guid => "guid"
  | integer => "integer"
  | decimal => "decimal"
  | boolean => "boolean"
  | date => "date"
  | dateTime => "datetime"
  | time => "time"

def ofName? (name : String) : Option ColumnType := all.find? fun type => type.name == name

def valueType : ColumnType → ValueType
  | text => .string
  | guid => .string
  | integer => .number
  | decimal => .number
  | boolean => .boolean
  | date => .date
  | dateTime => .dateTime
  | time => .time

end ColumnType

structure Column where
  name : String
  type : ColumnType
  nullable : Bool := true
  maxLength : Option UInt32 := none
  deriving DecidableEq, Repr

inductive Property where
  | primitive (column : Column)
  /-- The members of a complex property lie in the same table. -/
  | complex (members : List (String × Property))
  /-- The members of a navigation's target lie in a table that is joined under the qualifier. -/
  | navigation (qualifier : String) (members : List (String × Property))

abbrev Members := List (String × Property)

namespace Members

def find? (ms : Members) (name : String) : Option Property := ms.lookup name

def insert (name : String) (property : Property) : Members → Members
  | [] => [(name, property)]
  | (other, kept) :: rest =>
    if name < other then (name, property) :: (other, kept) :: rest
    else if name = other then (name, property) :: rest
    else (other, kept) :: insert name property rest

def ofList (entries : List (String × Property)) : Members :=
  entries.foldl (fun ms (name, property) => insert name property ms) []

def names (ms : Members) : List String := ms.map Prod.fst

end Members

structure Entity where
  name : String
  keys : List String := []
  members : Members := []

namespace Entity

def property? (e : Entity) (name : String) : Option Property := e.members.find? name

def withKey (e : Entity) (key : String) : Entity := { e with keys := e.keys ++ [key] }

def withProperty (e : Entity) (name : String) (property : Property) : Entity :=
  { e with members := e.members.insert name property }

inductive KeyError where
  | missing (key entity : String)
  | notPrimitive (key entity : String)
  deriving DecidableEq, Repr

def KeyError.message : KeyError → String
  | missing key entity => s!"key '{key}' of '{entity}' does not exist"
  | notPrimitive key entity => s!"key '{key}' of '{entity}' is not a primitive property"

def checkKey (e : Entity) (key : String) : Except KeyError Unit :=
  match e.property? key with
  | some (.primitive _) => .ok ()
  | some _ => .error (.notPrimitive key e.name)
  | none => .error (.missing key e.name)

/-- Every key must name a primitive property; the first that does not is reported. -/
def validate (e : Entity) : Except KeyError Unit := e.keys.forM e.checkKey

end Entity

end ClauseSql
