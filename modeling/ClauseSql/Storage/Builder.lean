import ClauseSql.Expr.Parser
import ClauseSql.Storage.Basic

/-! Parsing into a tree. Nodes are pushed while tokens are read. The arguments of a call have to wait until
it is closed, and calls inside of calls share one list for that: a call takes from its end what has been
added since its own opening parenthesis. -/
namespace ClauseSql

/-- The tree so far, and the arguments that wait for their calls to be closed. -/
structure Builder where
  tree : Tree
  waiting : List NodeId

namespace Builder

open ClauseSql.Parser (nestingLimit)

structure Built where
  id : NodeId
  height : Nat

abbrev Result (α : Type) := Except ParseError α × Builder

abbrev Rule := (power : Nat) → (ts : List Token) → Builder → Result (Reading Built ts)

def Result.andThen {α β : Type} (r : Result α) (next : α → Builder → Result β) : Result β :=
  match r with
  | (.error error, b) => (.error error, b)
  | (.ok a, b) => next a b

def push (b : Builder) (node : Node) : NodeId × Builder :=
  let (id, tree) := b.tree.push node
  (id, { b with tree })

def wait (b : Builder) (id : NodeId) : Builder := { b with waiting := b.waiting ++ [id] }

def drain (b : Builder) (start : Nat) : ArgList × Builder :=
  let (list, tree) := b.tree.pushArgs (b.waiting.drop start)
  (list, ⟨tree, b.waiting.take start⟩)

def pushed {ts : List Token} (b : Builder) (node : Node) (height : Nat) (rest : List Token)
    (shorter : rest.length < ts.length) : Result (Reading Built ts) :=
  let (id, b) := b.push node
  (.ok ⟨⟨id, height⟩, rest, shorter⟩, b)

def bounded {α : Type} (position height : Nat) (b : Builder) (next : Builder → Result α) : Result α :=
  if nestingLimit < height then (.error (.tooDeep position), b) else next b

/-- The arguments of a call up to the closing parenthesis, each of which is left waiting. Gives the height
of the highest. -/
def arguments (rule : Rule) (openedAt height : Nat) (ts : List Token) (b : Builder) :
    Result (Reading Nat ts) :=
  (rule 0 ts b).andThen fun arg b =>
    let b := b.wait arg.value.id
    let height := max height arg.value.height
    match arg.rest, arg.shorter with
    | [], _ => (.error (.missingCloseParen openedAt), b)
    | t :: rest, shorter =>
      have less : rest.length < ts.length := Nat.lt_of_succ_lt shorter
      if t.kind = .closeParen then (.ok ⟨height, rest, less⟩, b)
      else if t.kind = .eof then (.error (.missingCloseParen openedAt), b)
      else if t.kind = .comma then
        (arguments rule openedAt height rest b).andThen fun more b =>
          (.ok ⟨more.value, more.rest, Nat.lt_trans more.shorter less⟩, b)
      else (.error (.unexpected t), b)
termination_by ts.length

def close {ts : List Token} (b : Builder) (name : Token) (start height : Nat) (rest : List Token)
    (shorter : rest.length < ts.length) : Result (Reading Built ts) :=
  bounded name.start height b fun b =>
    let (list, b) := b.drain start
    b.pushed (.call name.span list) height rest shorter

def call (rule : Rule) (name : Token) (ts : List Token) (b : Builder) :
    Result (Reading Built (name :: ts)) :=
  match ts with
  | [] => (.error (.unexpectedEnd name.stop), b)
  | [_] => (.error (.unexpectedEnd name.stop), b)
  | opening :: t :: rest =>
    let start := b.waiting.length
    if opening.kind = .openParen then
      if t.kind = .closeParen then
        b.close name start 1 rest (Reading.shorter_third name opening t rest)
      else if t.kind = .eof then (.error (.missingCloseParen opening.start), b)
      else (arguments rule opening.start 0 (t :: rest) b).andThen fun args b =>
        b.close name start (args.value + 1) args.rest
          (Nat.lt_succ_of_lt (Nat.lt_succ_of_lt args.shorter))
    else (.error (.unexpected opening), b)

def parenthesized (rule : Rule) (opening : Token) (ts : List Token) (b : Builder) :
    Result (Reading Built (opening :: ts)) :=
  (rule 0 ts b).andThen fun inner b =>
    match inner.rest, inner.shorter with
    | [], _ => (.error (.missingCloseParen opening.start), b)
    | t :: rest, shorter =>
      if t.kind = .closeParen then
        (.ok ⟨inner.value, rest, Reading.shorter_behind opening shorter⟩, b)
      else (.error (.missingCloseParen opening.start), b)

def primary (rule : Rule) (first : Token) (ts : List Token) (b : Builder) :
    Result (Reading Built (first :: ts)) :=
  match first.kind with
  | .literal kind => b.pushed (.literal kind first.span) 1 ts (Reading.shorter_rest first ts)
  | .identifier => b.pushed (.path first.span) 1 ts (Reading.shorter_rest first ts)
  | .path => b.pushed (.path first.span) 1 ts (Reading.shorter_rest first ts)
  | .functionName => call rule first ts b
  | .openParen => parenthesized rule first ts b
  | .not =>
    (rule BinaryOperator.notPower ts b).andThen fun operand b =>
      bounded first.start (operand.value.height + 1) b fun b =>
        b.pushed (.not operand.value.id) (operand.value.height + 1) operand.rest
          (Nat.lt_succ_of_lt operand.shorter)
  | _ => (.error (.unexpected first), b)

def operators (rule : Rule) (power : Nat) (compared : Bool) {input : List Token}
    (left : Reading Built input) (b : Builder) : Result (Reading Built input) :=
  match follows : left.rest with
  | [] => (.ok left, b)
  | t :: ts =>
    match t.kind with
    | .operator op =>
      if op.powers.1 < power then (.ok left, b)
      else if op.isComparison && compared then (.error (.chainedComparison t.start), b)
      else (rule op.powers.2 ts b).andThen fun right b =>
        have less : right.rest.length < left.rest.length := by
          rw [follows]
          exact Nat.lt_succ_of_lt right.shorter
        let height := max left.value.height right.value.height + 1
        bounded t.start height b fun b =>
          let (id, b) := b.push (.binary op left.value.id right.value.id)
          operators rule power (compared || op.isComparison)
            ⟨⟨id, height⟩, right.rest, Nat.lt_trans less left.shorter⟩ b
    | _ => (.ok left, b)
termination_by left.rest.length

def nested : (depth : Nat) → Rule
  | 0 => fun _ ts b =>
    match ts with
    | [] => (.error (.unexpectedEnd 0), b)
    | first :: _ => (.error (.tooDeep first.start), b)
  | depth + 1 => fun power ts b =>
    match ts with
    | [] => (.error (.unexpectedEnd 0), b)
    | first :: rest =>
      (primary (nested depth) first rest b).andThen (operators (nested depth) power false)

def expression (ts : List Token) (b : Builder) : Result (Reading Built ts) :=
  nested nestingLimit 0 ts b

def pushItem {ts : List Token} (b : Builder) (node : Node) (rest : List Token)
    (shorter : rest.length < ts.length) : Result (Reading NodeId ts) :=
  let (id, b) := b.push node
  (.ok ⟨id, rest, shorter⟩, b)

def computeItem (ts : List Token) (b : Builder) : Result (Reading NodeId ts) :=
  (expression ts b).andThen fun value b =>
    match value.rest, value.shorter with
    | [], _ => (.error (.unexpectedEnd 0), b)
    | [t], _ =>
      (.error (if t.kind = .comma ∨ t.kind = .eof then .missingAlias t.start else .unexpected t), b)
    | t :: name :: rest, shorter =>
      if t.kind = .asWord then
        if name.kind = .identifier then
          b.pushItem (.named value.value.id name.span) rest (Reading.shorter_second shorter)
        else (.error (.unexpected name), b)
      else
        (.error (if t.kind = .comma ∨ t.kind = .eof then .missingAlias t.start else .unexpected t), b)

def orderItem (ts : List Token) (b : Builder) : Result (Reading NodeId ts) :=
  (expression ts b).andThen fun value b =>
    match value.rest, value.shorter with
    | [], shorter => b.pushItem (.ordered value.value.id false) [] shorter
    | t :: rest, shorter =>
      if t.kind = .identifier then
        match Parser.direction? t.lexeme with
        | some descending =>
          b.pushItem (.ordered value.value.id descending) rest (Nat.lt_of_succ_lt shorter)
        | none => (.error (.unexpected t), b)
      else b.pushItem (.ordered value.value.id false) (t :: rest) shorter

def items (item : (ts : List Token) → Builder → Result (Reading NodeId ts)) (ts : List Token)
    (b : Builder) : Result (List NodeId) :=
  (item ts b).andThen fun first b =>
    match first.rest, first.shorter with
    | [], _ => (.ok [first.value], b)
    | t :: rest, shorter =>
      have : rest.length < ts.length := Nat.lt_of_succ_lt shorter
      if t.kind = .comma then
        (items item rest b).andThen fun more b => (.ok (first.value :: more), b)
      else if t.kind = .eof then (.ok [first.value], b)
      else (.error (.unexpected t), b)
termination_by ts.length

def filter (ts : List Token) (b : Builder) : Result NodeId :=
  if Parser.isBlank ts then (.error .noExpression, b)
  else (expression ts b).andThen fun root b =>
    match root.rest with
    | [] => (.ok root.value.id, b)
    | t :: _ => if t.kind = .eof then (.ok root.value.id, b) else (.error (.unexpected t), b)

def list (item : (ts : List Token) → Builder → Result (Reading NodeId ts)) (ts : List Token)
    (b : Builder) : Result ArgList :=
  if Parser.isBlank ts then (.error .noExpression, b)
  else (items item ts b).andThen fun ids b =>
    let (list, tree) := b.tree.pushArgs ids
    (.ok list, { b with tree })

end Builder

end ClauseSql
