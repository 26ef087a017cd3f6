import ClauseSql.Error
import ClauseSql.Expr.Printer

/-! From an expression to its typed model. Names are looked up in the entity, literals get their
values, and operands get their types. A text or reference that cannot be read stops the work at the
place where it is needed. -/
namespace ClauseSql.Typing

/-- An expression as it stands in a tree: its texts may be unreadable, its references broken. -/
abbrev TreeExpr := Expr (Option (List Char)) Unit

abbrev Result := Except Failure

def refuse {α : Type} (cause : Invalid) : Result α := .error (.invalid cause)

def readable {α : Type} : Option α → Result α
  | some a => .ok a
  | none => .error .broken

def isTrue (text : List Char) : Bool := Text.lower text == "true".toList

def unquote? (text : List Char) : Option String :=
  if Text.byteLength text < 2 then none
  else (Text.slice? text 1 (Text.byteLength text - 1)).map fun inner =>
    String.ofList (Text.undoubleQuotes inner)

def dateOf (text : List Char) : Result Date :=
  match Date.read text with
  | .ok date => .ok date
  | .error error => refuse (.badDate (String.ofList text) error)

def literalValue (kind : LiteralKind) (text : List Char) : Result Value :=
  match kind with
  | .null => .ok .null
  | .boolean => .ok (.bool (isTrue text))
  | .string => (readable (unquote? text)).map .text
  | .number =>
    match Value.number? text with
    | some value => .ok value
    | none => refuse (.badNumber (String.ofList text))
  | .date => (dateOf text).map .date
  | .dateTime =>
    match Moment.read? text with
    | some moment => .ok (.moment moment)
    | none => refuse (.badDateTime (String.ofList text))

def functionNamed (name : List Char) : Result Function :=
  match Function.ofName? name with
  | some function => .ok function
  | none => refuse (.unknownFunction (String.ofList name))

def located (entity : Entity) (path : List Char) : Result Located :=
  match entity.resolve (String.ofList path) with
  | .ok located => .ok located
  | .error error => refuse (.path error)

def printed (e : TreeExpr) : Result String := (readable e.print?).map String.ofList

mutual
def operand (entity : Entity) : TreeExpr → Result (Operand × ValueType)
  | .path text => do
    let path ← readable text
    let located ← located entity path
    return (.property (String.ofList path), located.type)
  | .literal kind text => do
    let text ← readable text
    let value ← literalValue kind text
    return (.literal value, value.type)
  | .call name args => do
    let name ← readable name
    let function ← functionNamed name
    if function.stringMatch?.isSome then refuse (.conditionOnly function)
    else if function.signature.acceptsArity args.length then
      let args ← arguments entity function 0 args
      return (.call function args, function.signature.returns)
    else refuse (.arity function args.length)
  | .brokenCall name _ => do
    let name ← readable name
    let function ← functionNamed name
    if function.stringMatch?.isSome then refuse (.conditionOnly function) else .error .broken
  | .binary (.arithmetic op) left right => do
    let (left, leftType) ← operand entity left
    let (right, rightType) ← operand entity right
    if leftType ≠ .number then refuse (.notNumeric op leftType)
    else if rightType ≠ .number then refuse (.notNumeric op rightType)
    else return (.arithmetic op left right, .number)
  | .binary op left right => do
    let text ← printed (.binary op left right)
    refuse (.conditionAsValue text)
  | .not inner => do
    let text ← printed (.not inner)
    refuse (.conditionAsValue text)
  | .named _ _ => refuse .itemInside
  | .ordered _ _ => refuse .itemInside
  | .broken _ => .error .broken
def arguments (entity : Entity) (function : Function) (index : Nat) :
    List TreeExpr → Result (List Operand)
  | [] => .ok []
  | arg :: args => do
    let (value, type) ← operand entity arg
    match function.signature.param? index with
    | some param =>
      if param.accepts type then
        let values ← arguments entity function (index + 1) args
        return value :: values
      else refuse (.argument function (index + 1) param type)
    | none =>
      let values ← arguments entity function (index + 1) args
      return value :: values
end

def stringMatch (entity : Entity) (function : Function) (kind : StringMatch) :
    List TreeExpr → Result Filter
  | [target, pattern] => do
    let (target, type) ← operand entity target
    if type ≠ .string then refuse (.matchTarget function type)
    else match pattern with
      | .literal .string text => do
        let text ← readable text
        let pattern ← readable (unquote? text)
        return .stringMatch kind.operator target pattern
      | .broken _ => .error .broken
      | _ => refuse (.matchPattern function)
  | args => refuse (.matchArity function args.length)

/-- The string match that an expression calls, if it is such a call, with its arguments unless
these are broken. -/
def calledMatch? : TreeExpr →
    Result (Option (Function × StringMatch × Option (List TreeExpr)))
  | .call name args => do
    let name ← readable name
    return called name (some args)
  | .brokenCall name _ => do
    let name ← readable name
    return called name none
  | .broken _ => .error .broken
  | _ => .ok none
where
  called (name : List Char) (args : Option (List TreeExpr)) :=
    (Function.ofName? name).bind fun function =>
      function.stringMatch?.map fun kind => (function, kind, args)

def negation (function : Function) (op : Comparison) (expected : Bool) : Result Bool :=
  match op with
  | .eq => .ok !expected
  | .ne => .ok expected
  | _ => refuse (.matchNotEquated function)

/-- A string match compared with `true` or `false` is the match or its negation. There is nothing
to fold if the first expression is no string match. -/
def fold? (entity : Entity) (call : TreeExpr) (op : Comparison) (other : TreeExpr) :
    Result (Option Filter) := do
  match ← calledMatch? call with
  | none => return none
  | some (function, kind, args) =>
    let expected ← match other with
      | .literal .boolean text => (readable text).map isTrue
      | .broken _ => .error .broken
      | _ => refuse (.matchWithoutBoolean function)
    let negated ← negation function op expected
    let args ← readable args
    let matched ← stringMatch entity function kind args
    return some (if negated then .not matched else matched)

/-- A string literal next to a date or a date-time becomes one itself. -/
def coerce (value : Operand) (type other : ValueType) : Result (Operand × ValueType) :=
  match value with
  | .literal (.text text) =>
    match other with
    | .date => do
      let date ← dateOf text.toList
      return (.literal (.date date), .date)
    | .dateTime =>
      match Moment.read? text.toList with
      | some moment => .ok (.literal (.moment moment), .dateTime)
      | none => do
        let date ← dateOf text.toList
        return (.literal (.date date), .date)
    | _ => .ok (value, type)
  | _ => .ok (value, type)

def comparison (entity : Entity) (op : Comparison) (left right : TreeExpr) : Result Filter := do
  match ← fold? entity left op right with
  | some folded => return folded
  | none =>
    match ← fold? entity right op left with
    | some folded => return folded
    | none =>
      let (leftValue, leftType) ← operand entity left
      let (rightValue, rightType) ← operand entity right
      if leftValue.isNull && rightValue.isNull then refuse .nullWithNull
      else
        let (leftValue, leftType) ← coerce leftValue leftType rightType
        let (rightValue, rightType) ← coerce rightValue rightType leftType
        if leftType.comparable rightType then
          return .comparison op.operator leftValue rightValue
        else refuse (.incomparable leftType rightType)

def filter (entity : Entity) : TreeExpr → Result Filter
  | .binary (.connective op) left right => do
    let left ← filter entity left
    let right ← filter entity right
    return .logical op.operator left right
  | .not inner => do
    let inner ← filter entity inner
    return .not inner
  | .binary (.comparison op) left right => comparison entity op left right
  | .call name args => do
    let name ← readable name
    let function ← functionNamed name
    match function.stringMatch? with
    | none => refuse (.notBoolean function)
    | some kind => stringMatch entity function kind args
  | .brokenCall name _ => do
    let name ← readable name
    let function ← functionNamed name
    match function.stringMatch? with
    | none => refuse (.notBoolean function)
    | some _ => .error .broken
  | .path text => do
    let path ← readable text
    let located ← located entity path
    if located.type = .boolean then
      return .comparison .equal (.property (String.ofList path)) (.literal (.bool true))
    else refuse (.propertyNotBoolean (String.ofList path))
  | .literal .boolean text => do
    let text ← readable text
    return .constant (isTrue text)
  | .broken _ => .error .broken
  | .literal kind text => do
    let text ← printed (.literal kind text)
    refuse (.notACondition text)
  | .binary op left right => do
    let text ← printed (.binary op left right)
    refuse (.notACondition text)
  | .named value name => do
    let text ← printed (.named value name)
    refuse (.notACondition text)
  | .ordered value descending => do
    let text ← printed (.ordered value descending)
    refuse (.notACondition text)

/-- The items of a compute clause. An alias may neither repeat an earlier one nor name a property of
the entity. -/
def compute (entity : Entity) (done : List ComputeItem) : List TreeExpr → Result (List ComputeItem)
  | [] => .ok done
  | .named value text :: items => do
    let text ← readable text
    let name := String.ofList text
    if done.any fun item => item.name == name then refuse (.duplicateAlias name)
    else if (entity.property? name).isSome then refuse (.aliasConflict name entity.name)
    else
      let (operand, type) ← operand entity value
      compute entity (done ++ [⟨operand, name, type⟩]) items
  | .broken _ :: _ => .error .broken
  | _ :: _ => refuse .noAlias

/-- The items of an order clause, the first of which has the given number. Each must depend on
something other than literals. -/
def orderBy (entity : Entity) (number : Nat) : List TreeExpr → Result (List OrderItem)
  | [] => .ok []
  | .ordered value descending :: items => do
    let (operand, _) ← operand entity value
    if operand.isLiteral then refuse (.orderByLiteral number)
    else
      let rest ← orderBy entity (number + 1) items
      return ⟨operand, descending⟩ :: rest
  | .broken _ :: _ => .error .broken
  | _ :: _ => refuse .noOrderItem

end ClauseSql.Typing
