import ClauseSql.Expr.Basic
import ClauseSql.Reading
import ClauseSql.Text.Letter

/-! The parser. An expression is a first operand followed by operators, each of which takes a right
operand that holds together more strongly than itself. The depth of the recursion and the height of
the expression are both bounded by `nestingLimit`. -/
namespace ClauseSql

inductive ParseError where
  | noExpression
  | missingCloseParen (position : Nat)
  | unexpectedToken (position : Nat) (text : String)
  | unexpectedEnd (position : Nat)
  | chainedComparison (position : Nat)
  | missingAlias (position : Nat)
  | tooDeep (position : Nat)
  deriving DecidableEq, Repr

namespace ParseError

def position : ParseError → Nat
  | noExpression => 0
  | missingCloseParen p => p
  | unexpectedToken p _ => p
  | unexpectedEnd p => p
  | chainedComparison p => p
  | missingAlias p => p
  | tooDeep p => p

def message : ParseError → String
  | noExpression => "empty expression"
  | missingCloseParen p => s!"missing closing parenthesis for '(' at {p}"
  | unexpectedToken p text => s!"unexpected token '{text}' at {p}"
  | unexpectedEnd p => s!"unexpected end of input at {p}"
  | chainedComparison p => s!"comparison operators cannot be chained (at {p})"
  | missingAlias p => s!"compute expression ending at {p} needs an 'as' alias"
  | tooDeep p => s!"expression nested too deeply at {p}"

def unexpected (t : Token) : ParseError :=
  if t.kind = .eof then unexpectedEnd t.start else unexpectedToken t.start t.text

end ParseError

namespace Parser

def nestingLimit : Nat := 128

/-- Why parsing stopped, and the complete expressions that stood there by then. -/
structure Stop where
  cause : ParseError
  built : List ParsedExpr

def Stop.after (done : List ParsedExpr) (s : Stop) : Stop := ⟨s.cause, done ++ s.built⟩

structure Sized where
  expr : ParsedExpr
  height : Nat

/-- Reads an expression whose operators bind with at least the given power. -/
abbrev Rule := (power : Nat) → (ts : List Token) → Except Stop (Reading Sized ts)

def bounded {ts : List Token} (position : Nat) (parts : List ParsedExpr) (r : Reading Sized ts) :
    Except Stop (Reading Sized ts) :=
  if nestingLimit < r.value.height then .error ⟨.tooDeep position, parts⟩ else .ok r

/-- The arguments of a call from the first one up to the closing parenthesis, with the height of
the highest. -/
def arguments (rule : Rule) (openedAt : Nat) (ts : List Token) :
    Except Stop (Reading (List ParsedExpr × Nat) ts) :=
  match rule 0 ts with
  | .error stop => .error stop
  | .ok ⟨arg, after, shorter⟩ =>
    match after, shorter with
    | [], _ => .error ⟨.missingCloseParen openedAt, [arg.expr]⟩
    | t :: rest, shorter =>
      have less : rest.length < ts.length := Nat.lt_of_succ_lt shorter
      if t.kind = .closeParen then .ok ⟨([arg.expr], arg.height), rest, less⟩
      else if t.kind = .eof then .error ⟨.missingCloseParen openedAt, [arg.expr]⟩
      else if t.kind = .comma then
        match arguments rule openedAt rest with
        | .error stop => .error (stop.after [arg.expr])
        | .ok more =>
          .ok ⟨(arg.expr :: more.value.1, max arg.height more.value.2), more.rest,
            Nat.lt_trans more.shorter less⟩
      else .error ⟨.unexpected t, [arg.expr]⟩
termination_by ts.length

def call (rule : Rule) (name : Token) (ts : List Token) :
    Except Stop (Reading Sized (name :: ts)) :=
  match ts with
  | [] => .error ⟨.unexpectedEnd name.stop, []⟩
  | [_] => .error ⟨.unexpectedEnd name.stop, []⟩
  | opening :: t :: rest =>
    if opening.kind = .openParen then
      if t.kind = .closeParen then
        .ok ⟨⟨.call name.span [], 1⟩, rest, by simp only [List.length_cons]; omega⟩
      else if t.kind = .eof then .error ⟨.missingCloseParen opening.start, []⟩
      else match arguments rule opening.start (t :: rest) with
        | .error stop => .error stop
        | .ok args =>
          bounded name.start args.value.1
            ⟨⟨.call name.span args.value.1, args.value.2 + 1⟩, args.rest,
              Nat.lt_succ_of_lt (Nat.lt_succ_of_lt args.shorter)⟩
    else .error ⟨.unexpected opening, []⟩

def parenthesized (rule : Rule) (opening : Token) (ts : List Token) :
    Except Stop (Reading Sized (opening :: ts)) :=
  match rule 0 ts with
  | .error stop => .error stop
  | .ok ⟨inner, after, shorter⟩ =>
    match after, shorter with
    | [], _ => .error ⟨.missingCloseParen opening.start, [inner.expr]⟩
    | t :: rest, shorter =>
      if t.kind = .closeParen then
        .ok ⟨inner, rest, Nat.lt_succ_of_lt (Nat.lt_of_succ_lt shorter)⟩
      else .error ⟨.missingCloseParen opening.start, [inner.expr]⟩

def primary (rule : Rule) (first : Token) (ts : List Token) :
    Except Stop (Reading Sized (first :: ts)) :=
  match first.kind with
  | .literal kind => .ok ⟨⟨.literal kind first.span, 1⟩, ts, Nat.lt_succ_self _⟩
  | .identifier => .ok ⟨⟨.path first.span, 1⟩, ts, Nat.lt_succ_self _⟩
  | .path => .ok ⟨⟨.path first.span, 1⟩, ts, Nat.lt_succ_self _⟩
  | .functionName => call rule first ts
  | .openParen => parenthesized rule first ts
  | .not =>
    match rule BinaryOperator.notPower ts with
    | .error stop => .error stop
    | .ok operand =>
      bounded first.start [operand.value.expr]
        ((operand.map fun s => ⟨.not s.expr, s.height + 1⟩).behind first)
  | _ => .error ⟨.unexpected first, []⟩

/-- Extends an expression by the operators that follow and bind strongly enough. Only one of them
may be a comparison. -/
def operators (rule : Rule) (power : Nat) (compared : Bool) {input : List Token}
    (left : Reading Sized input) : Except Stop (Reading Sized input) :=
  match follows : left.rest with
  | [] => .ok left
  | t :: ts =>
    match t.kind with
    | .operator op =>
      if op.powers.1 < power then .ok left
      else if op.isComparison && compared then
        .error ⟨.chainedComparison t.start, [left.value.expr]⟩
      else match rule op.powers.2 ts with
        | .error stop => .error (stop.after [left.value.expr])
        | .ok right =>
          have less : right.rest.length < left.rest.length := by
            rw [follows]
            exact Nat.lt_succ_of_lt right.shorter
          let height := max left.value.height right.value.height + 1
          if nestingLimit < height then
            .error ⟨.tooDeep t.start, [left.value.expr, right.value.expr]⟩
          else
            operators rule power (compared || op.isComparison)
              ⟨⟨.binary op left.value.expr right.value.expr, height⟩, right.rest,
                Nat.lt_trans less left.shorter⟩
    | _ => .ok left
termination_by left.rest.length

/-- The rule for expressions nested at most `depth` deep. -/
def nested : (depth : Nat) → Rule
  | 0 => fun _ ts =>
    match ts with
    | [] => .error ⟨.unexpectedEnd 0, []⟩
    | first :: _ => .error ⟨.tooDeep first.start, []⟩
  | depth + 1 => fun power ts =>
    match ts with
    | [] => .error ⟨.unexpectedEnd 0, []⟩
    | first :: rest =>
      match primary (nested depth) first rest with
      | .error stop => .error stop
      | .ok left => operators (nested depth) power false left

def expression (ts : List Token) : Except Stop (Reading Sized ts) := nested nestingLimit 0 ts

def computeItem (ts : List Token) : Except Stop (Reading ParsedExpr ts) :=
  match expression ts with
  | .error stop => .error stop
  | .ok ⟨value, after, shorter⟩ =>
    match after, shorter with
    | [], _ => .error ⟨.unexpectedEnd 0, [value.expr]⟩
    | [t], _ =>
      .error ⟨if t.kind = .comma ∨ t.kind = .eof then .missingAlias t.start else .unexpected t,
        [value.expr]⟩
    | t :: name :: rest, shorter =>
      if t.kind = .asWord then
        if name.kind = .identifier then
          .ok ⟨.named value.expr name.span, rest, Nat.lt_of_succ_lt (Nat.lt_of_succ_lt shorter)⟩
        else .error ⟨.unexpected name, [value.expr]⟩
      else
        .error ⟨if t.kind = .comma ∨ t.kind = .eof then .missingAlias t.start else .unexpected t,
          [value.expr]⟩

def direction? (word : List Char) : Option Bool :=
  if Text.lower word = "desc".toList then some true
  else if Text.lower word = "asc".toList then some false
  else none

def orderItem (ts : List Token) : Except Stop (Reading ParsedExpr ts) :=
  match expression ts with
  | .error stop => .error stop
  | .ok ⟨value, after, shorter⟩ =>
    match after, shorter with
    | [], shorter => .ok ⟨.ordered value.expr false, [], shorter⟩
    | t :: rest, shorter =>
      if t.kind = .identifier then
        match direction? t.lexeme with
        | some descending =>
          .ok ⟨.ordered value.expr descending, rest, Nat.lt_of_succ_lt shorter⟩
        | none => .error ⟨.unexpected t, [value.expr]⟩
      else .ok ⟨.ordered value.expr false, t :: rest, shorter⟩

def items (item : (ts : List Token) → Except Stop (Reading ParsedExpr ts)) (ts : List Token) :
    Except Stop (List ParsedExpr) :=
  match item ts with
  | .error stop => .error stop
  | .ok ⟨first, after, shorter⟩ =>
    match after, shorter with
    | [], _ => .ok [first]
    | t :: rest, shorter =>
      have : rest.length < ts.length := Nat.lt_of_succ_lt shorter
      if t.kind = .comma then
        match items item rest with
        | .error stop => .error (stop.after [first])
        | .ok more => .ok (first :: more)
      else if t.kind = .eof then .ok [first]
      else .error ⟨.unexpected t, [first]⟩
termination_by ts.length

def isBlank : List Token → Bool
  | [] => true
  | t :: _ => t.kind == .eof

def filter (ts : List Token) : Except Stop ParsedExpr :=
  if isBlank ts then .error ⟨.noExpression, []⟩
  else match expression ts with
    | .error stop => .error stop
    | .ok ⟨root, [], _⟩ => .ok root.expr
    | .ok ⟨root, t :: _, _⟩ =>
      if t.kind = .eof then .ok root.expr else .error ⟨.unexpected t, [root.expr]⟩

def compute (ts : List Token) : Except Stop (List ParsedExpr) :=
  if isBlank ts then .error ⟨.noExpression, []⟩ else items computeItem ts

def orderBy (ts : List Token) : Except Stop (List ParsedExpr) :=
  if isBlank ts then .error ⟨.noExpression, []⟩ else items orderItem ts

end Parser

end ClauseSql
