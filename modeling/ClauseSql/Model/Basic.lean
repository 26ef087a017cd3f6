import ClauseSql.Expr.Operator
import ClauseSql.Function

/-! The typed model of a clause: what it means once names are known and literals have values. -/
namespace ClauseSql

inductive Operator where
  | equal
  | notEqual
  | greaterThan
  | greaterOrEqual
  | lessThan
  | lessOrEqual
  | contains
  | startsWith
  | endsWith
  | and
  | or
  | not
  deriving DecidableEq, Repr

namespace Operator

def all : List Operator :=
  [equal, notEqual, greaterThan, greaterOrEqual, lessThan, lessOrEqual, contains, startsWith,
   endsWith, and, or, not]

def name : Operator → String
  | equal => "Equal"
  | notEqual => "NotEqual"
  | greaterThan => "GreaterThan"
  | greaterOrEqual => "GreaterOrEqual"
  | lessThan => "LessThan"
  | lessOrEqual => "LessOrEqual"
  | contains => "Contains"
  | startsWith => "StartsWith"
  | endsWith => "EndsWith"
  | and => "And"
  | or => "Or"
  | not => "Not"

def ofName? (name : String) : Option Operator := all.find? fun op => op.name == name

end Operator

def Comparison.operator : Comparison → Operator
  | eq => .equal
  | ne => .notEqual
  | gt => .greaterThan
  | ge => .greaterOrEqual
  | lt => .lessThan
  | le => .lessOrEqual

def Connective.operator : Connective → Operator
  | and => .and
  | or => .or

def StringMatch.operator : StringMatch → Operator
  | contains => .contains
  | startsWith => .startsWith
  | endsWith => .endsWith

/-- What stands on either side of a comparison, or is computed, or is sorted by. -/
inductive Operand where
  | property (path : String)
  | literal (value : Value)
  | call (function : Function) (args : List Operand)
  | arithmetic (op : Arithmetic) (left right : Operand)

namespace Operand

def isNull : Operand → Bool
  | literal .null => true
  | _ => false

mutual
def isLiteral : Operand → Bool
  | .property _ => false
  | .literal _ => true
  | .call function args => function != .now && areLiterals args
  | .arithmetic _ left right => isLiteral left && isLiteral right
def areLiterals : List Operand → Bool
  | [] => true
  | operand :: operands => isLiteral operand && areLiterals operands
end

mutual
def paths : Operand → List String
  | .property path => [path]
  | .literal _ => []
  | .call _ args => pathsOfAll args
  | .arithmetic _ left right => paths left ++ paths right
def pathsOfAll : List Operand → List String
  | [] => []
  | operand :: operands => paths operand ++ pathsOfAll operands
end

end Operand

inductive Filter where
  | comparison (operator : Operator) (left right : Operand)
  /-- The pattern is the text as the user wrote it. -/
  | stringMatch (operator : Operator) (target : Operand) (pattern : String)
  | logical (operator : Operator) (left right : Filter)
  | not (operand : Filter)
  | constant (value : Bool)

def firstOccurrences (items : List String) : List String :=
  items.foldl (fun kept item => if kept.contains item then kept else kept ++ [item]) []

namespace Filter

def paths : Filter → List String
  | comparison _ left right => left.paths ++ right.paths
  | stringMatch _ target _ => target.paths
  | logical _ left right => left.paths ++ right.paths
  | not operand => operand.paths
  | constant _ => []

def referenced (f : Filter) : List String := firstOccurrences f.paths

end Filter

structure ComputeItem where
  operand : Operand
  name : String
  type : ValueType

structure OrderItem where
  operand : Operand
  descending : Bool

def OrderItem.referenced (items : List OrderItem) : List String :=
  firstOccurrences (items.flatMap fun item => item.operand.paths)

end ClauseSql
