import ClauseSql.Compiler
import ClauseSql.Entity.Json
import ClauseSql.Json.Printer

/-! One clause compiled on request. The answer is a JSON object with the SQL and its arguments, or a
message on the error channel. -/
namespace ClauseSql

namespace Value

/-- The plain JSON form of an argument. JSON has no infinite numbers. -/
def toJson : Value → Json
  | .null => .null
  | .bool b => .bool b
  | .integer i => .integer i
  | .float x => if x.isFinite then .float x else .null
  | .text s => .string s
  | .date d => .string (String.ofList d.text)
  | .moment m => .string (String.ofList m.textZ)

def ofJson? : Json → Option Value
  | .null => some .null
  | .bool b => some (.bool b)
  | .integer i =>
    if isInteger i then some (.integer i) else some (.float (.ofRatio (i < 0) i.natAbs 1))
  | .float x => some (.float x)
  | .string s => some (.text s)
  | .array _ => none
  | .object _ => none

end Value

namespace CommandLine

structure Request where
  /-- The JSON text that describes the entity. -/
  entity : String
  dialect : String := "sqlite"
  policy : UnsupportedPolicy := .badRequest
  clause : Clause
  expression : String

inductive Problem where
  | error (error : Error)
  | unreadableEntity
  | broken
  deriving DecidableEq, Repr

def Problem.ofFailure : Failure → Problem
  | .error e => .error e
  | .broken => .broken

def Problem.message (policy : UnsupportedPolicy) : Problem → String
  | error e => s!"{e.status policy}: {e.message}"
  | unreadableEntity => "the metadata cannot be read"
  | broken => "the expression refers to a node that does not exist"

def argsField (args : List Value) : String × Json := ("args", .array (args.map Value.toJson))

def answer (dialect : Dialect) (entity : Entity) (clause : Clause) (expression : String) :
    Except Failure Json :=
  match clause with
  | .filter => do
    let result ← (Compiler.filter dialect expression entity .default).1
    return .object [argsField result.args, ("sql", .string result.sql)]
  | .compute => do
    let result ← (Compiler.compute dialect expression entity .default).1
    let columns := result.columns.map fun column =>
      Json.object [("alias", .string column.name), ("sql", .string column.sql)]
    return .object [argsField result.args, ("columns", .array columns)]
  | .orderBy => do
    let result ← (Compiler.orderBy dialect expression entity .default).1
    return .object [argsField result.args, ("items", .array (result.items.map .string))]

/-- The dialect is looked at first, then the entity is read and checked, then the clause compiled. -/
def run (request : Request) : Except Problem Json := do
  let dialect ← match Dialect.ofName? request.dialect with
    | some dialect => .ok dialect
    | none => .error (.error (.unknownDialect request.dialect))
  let entity ← match Entity.parse request.entity with
    | some entity => .ok entity
    | none => .error .unreadableEntity
  match entity.validate with
  | .error error => .error (.error (.invalid (.key error)))
  | .ok () => (answer dialect entity request.clause request.expression).mapError .ofFailure

structure Output where
  exit : UInt32
  stdout : String
  stderr : String
  deriving DecidableEq, Repr

def output (policy : UnsupportedPolicy) : Except Problem Json → Output
  | .ok answer => ⟨0, answer.pretty 0 ++ "\n", ""⟩
  | .error problem => ⟨1, "", problem.message policy ++ "\n"⟩

end CommandLine

end ClauseSql
