import ClauseSql.Token.Basic

/-! Expressions of the clause language. The texts of names, paths and literals have type `σ`: the
parser gives spans of the source, later stages see the characters. An expression that was put
together from references may hold broken ones, with a reason of type `β`; a parsed expression has
none. -/
namespace ClauseSql

inductive Expr (σ β : Type) where
  | literal (kind : LiteralKind) (text : σ)
  | path (text : σ)
  | not (operand : Expr σ β)
  | binary (op : BinaryOperator) (left right : Expr σ β)
  | call (name : σ) (args : List (Expr σ β))
  /-- An item of a compute clause. -/
  | named (value : Expr σ β) (name : σ)
  /-- An item of an order clause. -/
  | ordered (value : Expr σ β) (descending : Bool)
  | broken (reason : β)
  /-- A call whose list of arguments cannot be read. -/
  | brokenCall (name : σ) (reason : β)

abbrev ParsedExpr := Expr Span Empty

end ClauseSql
