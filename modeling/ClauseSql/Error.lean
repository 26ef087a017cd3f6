import ClauseSql.Entity.Path
import ClauseSql.Expr.Parser
import ClauseSql.Model.Basic
import ClauseSql.Sql.Dialect

/-! Everything that can go wrong with a clause, and how it is reported. -/
namespace ClauseSql

inductive Invalid where
  | path (error : PathError)
  | key (error : Entity.KeyError)
  | notBoolean (function : Function)
  | propertyNotBoolean (path : String)
  | notACondition (text : String)
  | nullWithNull
  | incomparable (left right : ValueType)
  | matchWithoutBoolean (function : Function)
  | matchNotEquated (function : Function)
  | matchArity (function : Function) (count : Nat)
  | matchTarget (function : Function) (type : ValueType)
  | matchPattern (function : Function)
  | unknownFunction (name : String)
  | conditionOnly (function : Function)
  | arity (function : Function) (count : Nat)
  | argument (function : Function) (number : Nat) (param : Param) (type : ValueType)
  | notNumeric (op : Arithmetic) (type : ValueType)
  | conditionAsValue (text : String)
  | itemInside
  | noAlias
  | duplicateAlias (name : String)
  | aliasConflict (name entity : String)
  | noOrderItem
  | orderByLiteral (number : Nat)
  | badNumber (text : String)
  | badDate (text : String) (error : Date.ReadError)
  | badDateTime (text : String)
  /-- A reason in the words of the host. -/
  | stated (detail : String)
  deriving DecidableEq, Repr

def Invalid.detail : Invalid → String
  | path error => error.message
  | key error => error.message
  | notBoolean f => s!"'{f.name}' does not produce a boolean and cannot be used as a condition"
  | propertyNotBoolean name => s!"property '{name}' is not boolean and cannot be used as a condition"
  | notACondition text => s!"'{text}' is not a condition"
  | nullWithNull => "cannot compare null with null"
  | incomparable left right => s!"cannot compare {left.name} with {right.name}"
  | matchWithoutBoolean f => s!"'{f.name}' can only be compared with true or false"
  | matchNotEquated f => s!"'{f.name}' can only be tested with eq or ne"
  | matchArity f count => s!"'{f.name}' expects 2 arguments, got {count}"
  | matchTarget f type => s!"argument 1 of '{f.name}' must be a string, got {type.name}"
  | matchPattern f => s!"argument 2 of '{f.name}' must be a string literal"
  | unknownFunction name => s!"unsupported function '{name}'"
  | conditionOnly f => s!"'{f.name}' can only be used as a condition"
  | arity f count => s!"'{f.name}' expects {f.signature.arityText} arguments, got {count}"
  | argument f number param type =>
    s!"argument {number} of '{f.name}' must be {param.display}, got {type.name}"
  | notNumeric op type => s!"'{op.word}' requires numeric operands, got {type.name}"
  | conditionAsValue text => s!"condition '{text}' cannot be used as a value"
  | itemInside => "unexpected list item inside an expression"
  | noAlias => "expected 'expression as alias'"
  | duplicateAlias name => s!"duplicate alias '{name}' in $compute"
  | aliasConflict name entity => s!"alias '{name}' conflicts with a property of '{entity}'"
  | noOrderItem => "expected an $orderby item"
  | orderByLiteral number => s!"$orderby item {number} does not reference any property"
  | badNumber text => s!"'{text}' is not a valid number"
  | badDate text error => s!"'{text}' is not a valid date: {error.message}"
  | badDateTime text => s!"'{text}' is not a valid date-time"
  | stated detail => detail

inductive Unsupported where
  | notConnective (operator : Operator)
  | notStringMatch (operator : Operator)
  | notComparison (operator : Operator)
  | nullWithNull
  | nullOrdered (operator : Operator)
  | noTemplate (function : Function) (dialect : Dialect)
  | badTemplate
  /-- A reason in the words of the host. -/
  | stated (detail : String)
  deriving DecidableEq, Repr

def Unsupported.detail : Unsupported → String
  | notConnective op => s!"{op.name} is not a boolean connective"
  | notStringMatch op => s!"{op.name} is not a string match"
  | notComparison op => s!"{op.name} is not a comparison"
  | nullWithNull => "comparison between two nulls"
  | nullOrdered op => s!"null can only be compared with eq or ne, not {op.name}"
  | noTemplate f dialect => s!"function '{f.name}' has no translation for {dialect.name}"
  | badTemplate => "malformed function template"
  | stated detail => detail

inductive Error where
  | lexical (error : LexError)
  | grammar (error : ParseError)
  /-- A malformed clause, in the words of the host. -/
  | malformed (position : Nat) (message : String)
  | invalid (cause : Invalid)
  | unsupported (cause : Unsupported)
  | unknownDialect (name : String)
  deriving DecidableEq, Repr

inductive ErrorKind where
  | malformed
  | invalid
  | unsupported
  | configuration
  deriving DecidableEq, Repr

/-- Whose fault an unsupported operation is taken to be. -/
inductive UnsupportedPolicy where
  | badRequest
  | notImplemented
  deriving DecidableEq, Repr

namespace Error

def kind : Error → ErrorKind
  | lexical _ => .malformed
  | grammar _ => .malformed
  | malformed _ _ => .malformed
  | invalid _ => .invalid
  | unsupported _ => .unsupported
  | unknownDialect _ => .configuration

def position? : Error → Option Nat
  | lexical error => some error.position
  | grammar error => some error.position
  | malformed position _ => some position
  | _ => none

def malformedText (position : Nat) (message : String) : String :=
  s!"syntax error at position {position}: {message}"

def message : Error → String
  | lexical error => malformedText error.position error.message
  | grammar error => malformedText error.position error.message
  | malformed position message => malformedText position message
  | invalid cause => s!"invalid expression: {cause.detail}"
  | unsupported cause => s!"unsupported operation: {cause.detail}"
  | unknownDialect name => s!"unknown SQL dialect '{name}'"

def status (policy : UnsupportedPolicy) (e : Error) : Nat :=
  match e.kind, policy with
  | .malformed, _ => 400
  | .invalid, _ => 400
  | .unsupported, .badRequest => 400
  | .unsupported, .notImplemented => 501
  | .configuration, _ => 500

end Error

/-- An error of the clause, or a reference that its tree does not hold. -/
inductive Failure where
  | error (error : Error)
  | broken
  deriving DecidableEq, Repr

def Failure.invalid (cause : Invalid) : Failure := .error (.invalid cause)

end ClauseSql
