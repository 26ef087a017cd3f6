import ClauseSql.Sql.Like
import ClauseSql.Sql.Writer

/-! From a typed model to SQL. Columns come from the entity, everything a user wrote becomes an
argument. -/
namespace ClauseSql

structure FilterSql where
  sql : String
  args : List Value
  deriving DecidableEq, Repr

structure ComputedColumn where
  sql : String
  name : String
  deriving DecidableEq, Repr

structure ComputeSql where
  columns : List ComputedColumn
  args : List Value
  deriving DecidableEq, Repr

structure OrderBySql where
  items : List String
  args : List Value
  deriving DecidableEq, Repr

def ComputeSql.selectList (c : ComputeSql) : String :=
  String.intercalate ", " (c.columns.map ComputedColumn.sql)

def OrderBySql.sql (o : OrderBySql) : String := String.intercalate ", " o.items

namespace Generation

def connective? : Operator → Option SqlOperator
  | .and => some .and
  | .or => some .or
  | _ => none

def comparison? : Operator → Option SqlOperator
  | .equal => some .eq
  | .notEqual => some .ne
  | .greaterThan => some .gt
  | .greaterOrEqual => some .ge
  | .lessThan => some .lt
  | .lessOrEqual => some .le
  | _ => none

def nullTest? : Operator → Option Bool
  | .equal => some false
  | .notEqual => some true
  | _ => none

def orElse {α : Type} (cause : Unsupported) : Option α → Except Error α
  | some a => .ok a
  | none => .error (.unsupported cause)

mutual
def operand (dialect : Dialect) (entity : Entity) : Operand → Except Error Sql
  | .property path =>
    match entity.resolve path with
    | .ok located => .ok (.column located.sql)
    | .error error => .error (.invalid (.path error))
  | .literal value => .ok (.param value)
  | .call function args => do
    let template ←
      orElse (.noTemplate function dialect) (dialect.template? function args.length)
    let args ← operands dialect entity args
    return .template template args
  | .arithmetic op left right => do
    let left ← operand dialect entity left
    let right ← operand dialect entity right
    return .binary (.ofArithmetic op) left right true
def operands (dialect : Dialect) (entity : Entity) : List Operand → Except Error (List Sql)
  | [] => .ok []
  | value :: values => do
    let first ← operand dialect entity value
    let rest ← operands dialect entity values
    return first :: rest
end

/-- Null on one side makes the comparison a test of the other side. -/
def comparison (dialect : Dialect) (entity : Entity) (operator : Operator) (left right : Operand) :
    Except Error Sql :=
  match left.isNull, right.isNull with
  | true, true => .error (.unsupported .nullWithNull)
  | false, true => nullTest left
  | true, false => nullTest right
  | false, false => do
    let op ← orElse (.notComparison operator) (comparison? operator)
    let left ← operand dialect entity left
    let right ← operand dialect entity right
    return .binary op left right false
where
  nullTest (tested : Operand) : Except Error Sql := do
    let negated ← orElse (.nullOrdered operator) (nullTest? operator)
    let tested ← operand dialect entity tested
    return .isNull tested negated

def filter (dialect : Dialect) (entity : Entity) : Filter → Except Error Sql
  | .logical operator left right => do
    let op ← orElse (.notConnective operator) (connective? operator)
    let left ← filter dialect entity left
    let right ← filter dialect entity right
    return .binary op (.group left) (.group right) false
  | .not inner => do
    let inner ← filter dialect entity inner
    return .not inner
  | .comparison operator left right => comparison dialect entity operator left right
  | .stringMatch operator target text => do
    let pattern ← orElse (.notStringMatch operator) (Like.pattern? operator text)
    let target ← operand dialect entity target
    return .like target pattern dialect.likeEscape
  | .constant value => .ok (.constant value)

def columns (w : Writer) : List (Except Error Sql) → Except Error (List String × List Value)
  | [] => .ok ([], w.args)
  | e :: es => do
    let e ← e
    let (text, w) := w.column e
    let text ← text
    let (texts, args) ← columns w es
    return (text :: texts, args)

def filterSql (dialect : Dialect) (entity : Entity) (f : Filter) : Except Error FilterSql := do
  let e ← filter dialect entity f
  let (result, w) := ({} : Writer).render e
  result
  return ⟨w.sql, w.args⟩

def computed (dialect : Dialect) (entity : Entity) (item : ComputeItem) : Except Error Sql := do
  let value ← operand dialect entity item.operand
  return .named value item.name dialect.quotes.1 dialect.quotes.2

def computeSql (dialect : Dialect) (entity : Entity) (items : List ComputeItem) :
    Except Error ComputeSql := do
  let (texts, args) ← columns {} (items.map (computed dialect entity))
  return ⟨List.zipWith (fun text item => ⟨text, item.name⟩) texts items, args⟩

def sorted (dialect : Dialect) (entity : Entity) (item : OrderItem) : Except Error Sql := do
  let value ← operand dialect entity item.operand
  return .ordered value item.descending

def orderBySql (dialect : Dialect) (entity : Entity) (items : List OrderItem) :
    Except Error OrderBySql := do
  let (texts, args) ← columns {} (items.map (sorted dialect entity))
  return ⟨texts, args⟩

end Generation

end ClauseSql
