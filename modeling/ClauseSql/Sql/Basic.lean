import ClauseSql.Expr.Operator
import ClauseSql.Value

/-! SQL expressions before they are written out. -/
namespace ClauseSql

inductive SqlOperator where
  | add
  | sub
  | mul
  | div
  | mod
  | eq
  | ne
  | lt
  | le
  | gt
  | ge
  | and
  | or
  deriving DecidableEq, Repr

namespace SqlOperator

def text : SqlOperator → String
  | add => " + "
  | sub => " - "
  | mul => " * "
  | div => " / "
  | mod => " % "
  | eq => " = "
  | ne => " <> "
  | lt => " < "
  | le => " <= "
  | gt => " > "
  | ge => " >= "
  | and => " AND "
  | or => " OR "

def ofArithmetic : Arithmetic → SqlOperator
  | .add => add
  | .sub => sub
  | .mul => mul
  | .div => div
  | .mod => mod

end SqlOperator

inductive Sql where
  | column (text : String)
  /-- A placeholder, bound to the value. -/
  | param (value : Value)
  /-- A text with numbered slots for the arguments. -/
  | template (text : String) (args : List Sql)
  | binary (op : SqlOperator) (left right : Sql) (parenthesized : Bool)
  | group (inner : Sql)
  | not (inner : Sql)
  | isNull (inner : Sql) (negated : Bool)
  | like (target : Sql) (pattern escape : String)
  | constant (value : Bool)
  | named (inner : Sql) (name opening closing : String)
  | ordered (inner : Sql) (descending : Bool)

end ClauseSql
