import ClauseSql.Entity.Basic

/-! Paths through an entity. A path is cut at its slashes, and each segment is looked up in the
members reached so far. -/
namespace ClauseSql

/-- A column found at the end of a path, with the qualifier of the last navigation on the way. -/
structure Located where
  qualifier : Option String
  column : Column
  deriving DecidableEq, Repr

namespace Located

def type (l : Located) : ValueType := l.column.type.valueType

def sql (l : Located) : String :=
  match l.qualifier with
  | some qualifier => qualifier ++ "." ++ l.column.name
  | none => l.column.name

end Located

inductive PathError where
  | missing (segment owner : String)
  | notStructured (segment : String)
  | notAValue (segment : String)
  deriving DecidableEq, Repr

def PathError.message : PathError → String
  | missing segment owner => s!"property '{segment}' does not exist on '{owner}'"
  | notStructured segment => s!"property '{segment}' is not a complex or navigation property"
  | notAValue segment => s!"property '{segment}' is structured and cannot be used as a value"

namespace Path

def segments : List Char → List Char × List (List Char)
  | [] => ([], [])
  | c :: cs =>
    let (first, others) := segments cs
    if c = '/' then ([], first :: others) else (c :: first, others)

end Path

namespace Members

/-- Follows a path from members that belong to `owner`. -/
def walk (ms : Members) (owner : String) (qualifier : Option String) (segment : String) :
    (others : List String) → Except PathError Located
  | [] =>
    match ms.find? segment with
    | none => .error (.missing segment owner)
    | some (.primitive column) => .ok ⟨qualifier, column⟩
    | some (.complex _) => .error (.notAValue segment)
    | some (.navigation _ _) => .error (.notAValue segment)
  | next :: others =>
    match ms.find? segment with
    | none => .error (.missing segment owner)
    | some (.primitive _) => .error (.notStructured segment)
    | some (.complex inner) => walk inner segment qualifier next others
    | some (.navigation crossed target) => walk target segment (some crossed) next others

end Members

def Entity.resolve (e : Entity) (path : String) : Except PathError Located :=
  let (first, others) := Path.segments path.toList
  e.members.walk e.name none (String.ofList first) (others.map String.ofList)

end ClauseSql
