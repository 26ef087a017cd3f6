import ClauseSql.Model.Typing
import ClauseSql.Proofs.Outcome
import Mathlib.Logic.Basic

/-! When typing succeeds, and with what, one kind of expression after the other. Everything else that
is said about typing rests on these rules. -/
namespace ClauseSql

def LiteralKind.type : LiteralKind → ValueType
  | .null => .null
  | .boolean => .boolean
  | .string => .string
  | .number => .number
  | .date => .date
  | .dateTime => .dateTime

namespace Typing

open Outcome

@[simp] theorem readable_eq_ok {α : Type} {o : Option α} {a : α} : readable o = .ok a ↔ o = some a := by
  cases o <;> simp [readable]

@[simp] theorem refuse_ne_ok {α : Type} {cause : Invalid} {a : α} :
    (refuse cause : Result α) = .ok a ↔ False := by
  simp [refuse]

@[simp] theorem functionNamed_eq_ok {name : List Char} {function : Function} :
    functionNamed name = .ok function ↔ Function.ofName? name = some function := by
  unfold functionNamed
  split <;> simp [*]

@[simp] theorem located_eq_ok {entity : Entity} {path : List Char} {found : Located} :
    located entity path = .ok found ↔ entity.resolve (String.ofList path) = .ok found := by
  unfold located
  split <;> simp [*]

@[simp] theorem dateOf_eq_ok {text : List Char} {date : Date} :
    dateOf text = .ok date ↔ Date.read text = .ok date := by
  unfold dateOf
  split <;> simp [*]

@[simp] theorem refuse_if {α : Type} {c : Prop} [Decidable c] {cause : Invalid} {x : Result α} {a : α} :
    (if c then refuse cause else x) = .ok a ↔ ¬ c ∧ x = .ok a := by
  split <;> simp [*]

@[simp] theorem refuse_unless {α : Type} {c : Prop} [Decidable c] {cause : Invalid} {x : Result α}
    {a : α} : (if c then x else refuse cause) = .ok a ↔ c ∧ x = .ok a := by
  split <;> simp [*]

theorem literalValue_type {kind : LiteralKind} {text : List Char} {value : Value}
    (done : literalValue kind text = .ok value) : value.type = kind.type := by
  cases kind with
  | null | boolean =>
    obtain rfl := Except.ok.inj done
    rfl
  | string | date =>
    obtain ⟨_, _, rfl⟩ := map_eq_ok.1 done
    rfl
  | number =>
    simp only [literalValue] at done
    split at done
    · next number =>
      obtain rfl := Except.ok.inj done
      unfold Value.number? at number
      split at number
      · obtain rfl := Option.some.inj number
        rfl
      · obtain ⟨_, _, rfl⟩ := Option.map_eq_some_iff.1 number
        rfl
    · simp at done
  | dateTime =>
    simp only [literalValue] at done
    split at done
    · obtain rfl := Except.ok.inj done
      rfl
    · simp at done

section Operands

variable {entity : Entity} {result : Operand × ValueType}

theorem operand_path {text : Option (List Char)} :
    operand entity (.path text) = .ok result ↔
      ∃ path, text = some path ∧ ∃ found, entity.resolve (String.ofList path) = .ok found ∧
        (.property (String.ofList path), found.type) = result := by
  simp [operand]

theorem operand_literal {kind : LiteralKind} {text : Option (List Char)} :
    operand entity (.literal kind text) = .ok result ↔
      ∃ cs, text = some cs ∧ ∃ value, literalValue kind cs = .ok value ∧
        (.literal value, value.type) = result := by
  simp [operand]

theorem operand_call {text : Option (List Char)} {args : List TreeExpr} :
    operand entity (.call text args) = .ok result ↔
      ∃ name, text = some name ∧ ∃ function, Function.ofName? name = some function ∧
        function.stringMatch? = none ∧ function.signature.acceptsArity args.length = true ∧
        ∃ values, arguments entity function 0 args = .ok values ∧
          (.call function values, function.signature.returns) = result := by
  simp [operand]

theorem operand_arithmetic {op : Arithmetic} {left right : TreeExpr} :
    operand entity (.binary (.arithmetic op) left right) = .ok result ↔
      ∃ a s, operand entity left = .ok (a, s) ∧ ∃ b t, operand entity right = .ok (b, t) ∧
        s = .number ∧ t = .number ∧ (.arithmetic op a b, .number) = result := by
  simp [operand]

theorem arguments_cons {function : Function} {index : Nat} {arg : TreeExpr} {args : List TreeExpr}
    {values : List Operand} :
    arguments entity function index (arg :: args) = .ok values ↔
      ∃ value type, operand entity arg = .ok (value, type) ∧
        (∀ param, function.signature.param? index = some param → param.accepts type = true) ∧
        ∃ others, arguments entity function (index + 1) args = .ok others ∧ value :: others = values := by
  rw [arguments]
  cases param : function.signature.param? index <;> simp

def isValue : TreeExpr → Bool
  | .path _ => true
  | .literal _ _ => true
  | .call _ _ => true
  | .binary (.arithmetic _) _ _ => true
  | _ => false

theorem isValue_of_operand {e : TreeExpr} (done : operand entity e = .ok result) :
    isValue e = true := by
  unfold operand at done
  split at done <;> first | rfl | simp at done

theorem literal_of_operand {e : TreeExpr} {value : Value} {type : ValueType}
    (typed : operand entity e = .ok (.literal value, type)) :
    ∃ kind cs, e = .literal kind (some cs) ∧ literalValue kind cs = .ok value ∧ kind.type = type := by
  have isValue := isValue_of_operand typed
  match e with
  | .path _ =>
    obtain ⟨_, _, _, _, equal⟩ := operand_path.1 typed
    cases equal
  | .call _ _ =>
    obtain ⟨_, _, _, _, _, _, _, _, equal⟩ := operand_call.1 typed
    cases equal
  | .binary (.arithmetic _) _ _ =>
    obtain ⟨_, _, _, _, _, _, _, _, equal⟩ := operand_arithmetic.1 typed
    cases equal
  | .literal kind _ =>
    obtain ⟨cs, rfl, _, read, equal⟩ := operand_literal.1 typed
    cases equal
    exact ⟨kind, cs, rfl, read, (literalValue_type read).symm⟩

end Operands

section Conditions

variable {entity : Entity} {condition : Filter}

theorem stringMatch_eq_ok {function : Function} {kind : StringMatch} {args : List TreeExpr} :
    stringMatch entity function kind args = .ok condition ↔
      ∃ target cs pattern value, args = [target, .literal .string (some cs)] ∧
        operand entity target = .ok (value, .string) ∧ unquote? cs = some pattern ∧
        .stringMatch kind.operator value pattern = condition := by
  constructor
  · intro done
    unfold stringMatch at done
    split at done
    · next target pattern =>
      obtain ⟨⟨value, type⟩, typed, done⟩ := bind_eq_ok.1 done
      dsimp only at done
      obtain ⟨isString, literal⟩ := refuse_if.1 done
      obtain rfl := not_not.1 isString
      split at literal
      · obtain ⟨cs, text, unquoted⟩ := bind_eq_ok.1 literal
        obtain ⟨pattern, quoted, equal⟩ := bind_eq_ok.1 unquoted
        obtain rfl := readable_eq_ok.1 text
        exact ⟨target, cs, pattern, value, rfl, typed, readable_eq_ok.1 quoted, pure_eq_ok.1 equal⟩
      · cases literal
      · simp at literal
    · simp at done
  · rintro ⟨target, cs, pattern, value, rfl, typed, quoted, rfl⟩
    simp [stringMatch, typed, quoted]

def MatchCall (e : TreeExpr) (function : Function) (kind : StringMatch) (args : List TreeExpr) : Prop :=
  ∃ name, e = .call (some name) args ∧ Function.ofName? name = some function ∧
    function.stringMatch? = some kind

theorem calledMatch?_some {e : TreeExpr} {function : Function} {kind : StringMatch}
    {args : List TreeExpr} :
    calledMatch? e = .ok (some (function, kind, some args)) ↔ MatchCall e function kind args := by
  unfold calledMatch? MatchCall
  cases e with
  | call text args => simp [calledMatch?.called, Option.bind_eq_some_iff]; grind
  | brokenCall text reason => simp [calledMatch?.called, Option.bind_eq_some_iff]
  | _ => simp

theorem calledMatch?_of_operand {e : TreeExpr} {result : Operand × ValueType}
    (done : operand entity e = .ok result) : calledMatch? e = .ok none := by
  have value := isValue_of_operand done
  cases e with
  | call text args =>
    obtain ⟨name, rfl, function, known, plain, _⟩ := operand_call.1 done
    simp [calledMatch?, calledMatch?.called, known, plain]
  | brokenCall | broken => cases value
  | _ => rfl

theorem not_matchCall_of_operand {e : TreeExpr} {result : Operand × ValueType}
    (done : operand entity e = .ok result) {function : Function} {kind : StringMatch}
    {args : List TreeExpr} : ¬ MatchCall e function kind args := by
  intro called
  have found := calledMatch?_some.2 called
  rw [calledMatch?_of_operand done] at found
  cases found

theorem fold?_none {call other : TreeExpr} {op : Comparison} (plain : calledMatch? call = .ok none) :
    fold? entity call op other = .ok none := by
  simp [fold?, plain]

theorem fold?_some {call other : TreeExpr} {op : Comparison} {folded : Filter} :
    fold? entity call op other = .ok (some folded) ↔
      ∃ function kind args cs negated matched, MatchCall call function kind args ∧
        other = .literal .boolean (some cs) ∧ negation function op (isTrue cs) = .ok negated ∧
        stringMatch entity function kind args = .ok matched ∧
        (if negated then .not matched else matched) = folded := by
  constructor
  · intro done
    unfold fold? at done
    obtain ⟨called, found, done⟩ := bind_eq_ok.1 done
    cases called with
    | none => cases done
    | some called =>
      obtain ⟨function, kind, args⟩ := called
      dsimp only at done
      cases other with
      | literal form text =>
        cases form with
        | boolean =>
          obtain ⟨expected, boolean, done⟩ := bind_eq_ok.1 done
          obtain ⟨negated, sense, done⟩ := bind_eq_ok.1 done
          obtain ⟨args, given, done⟩ := bind_eq_ok.1 done
          obtain ⟨matched, typed, equal⟩ := bind_eq_ok.1 done
          obtain ⟨cs, text, rfl⟩ := map_eq_ok.1 boolean
          obtain rfl := readable_eq_ok.1 text
          obtain rfl := readable_eq_ok.1 given
          exact ⟨function, kind, args, cs, negated, matched, calledMatch?_some.1 found, rfl, sense,
            typed, Option.some.inj (pure_eq_ok.1 equal)⟩
        | _ => simp at done
      | _ => simp at done
  · rintro ⟨function, kind, args, cs, negated, matched, call, rfl, sense, done, rfl⟩
    have found := calledMatch?_some.2 call
    unfold fold?
    simp only [found, ok_bind, readable, Except.map, sense, done]
    rfl

theorem coerce_cases {value found : Operand} {type other given : ValueType}
    (done : coerce value type other = .ok (found, given)) :
    (found = value ∧ given = type ∧
        ((∀ text, value ≠ .literal (.text text)) ∨ other.isTemporal = false)) ∨
      ∃ text v, value = .literal (.text text) ∧ found = .literal v ∧ given = v.type ∧
        v.type.isTemporal = true := by
  unfold coerce at done
  split at done
  · next text =>
    split at done
    · obtain ⟨date, _, equal⟩ := bind_eq_ok.1 done
      cases equal
      exact .inr ⟨text, .date date, rfl, rfl, rfl, rfl⟩
    · split at done
      · next moment _ =>
        cases done
        exact .inr ⟨text, .moment moment, rfl, rfl, rfl, rfl⟩
      · obtain ⟨date, _, equal⟩ := bind_eq_ok.1 done
        cases equal
        exact .inr ⟨text, .date date, rfl, rfl, rfl, rfl⟩
    · next date dateTime =>
      cases done
      refine .inl ⟨rfl, rfl, .inr ?_⟩
      cases other <;> first | rfl | contradiction
  · next plain =>
    cases done
    exact .inl ⟨rfl, rfl, .inl plain⟩

theorem comparison_eq_ok {op : Comparison} {left right : TreeExpr} :
    comparison entity op left right = .ok condition ↔
      fold? entity left op right = .ok (some condition) ∨
      fold? entity right op left = .ok (some condition) ∨
      ∃ a s b t, operand entity left = .ok (a, s) ∧ operand entity right = .ok (b, t) ∧
        (a.isNull && b.isNull) = false ∧
        ∃ a' s', coerce a s t = .ok (a', s') ∧ ∃ b' t', coerce b t s' = .ok (b', t') ∧
          s'.comparable t' = true ∧ .comparison op.operator a' b' = condition := by
  constructor
  · intro done
    unfold comparison at done
    obtain ⟨folded, left, done⟩ := bind_eq_ok.1 done
    cases folded with
    | some folded =>
      obtain rfl := pure_eq_ok.1 done
      exact .inl left
    | none =>
      obtain ⟨folded, right, done⟩ := bind_eq_ok.1 done
      cases folded with
      | some folded =>
        obtain rfl := pure_eq_ok.1 done
        exact .inr (.inl right)
      | none =>
        obtain ⟨⟨a, s⟩, left, done⟩ := bind_eq_ok.1 done
        obtain ⟨⟨b, t⟩, right, done⟩ := bind_eq_ok.1 done
        dsimp only at done
        obtain ⟨notNull, done⟩ := refuse_if.1 done
        obtain ⟨⟨a', s'⟩, coerced, done⟩ := bind_eq_ok.1 done
        obtain ⟨⟨b', t'⟩, other, done⟩ := bind_eq_ok.1 done
        dsimp only at done
        obtain ⟨fit, done⟩ := refuse_unless.1 done
        exact .inr (.inr ⟨a, s, b, t, left, right, Bool.eq_false_iff.2 notNull, a', s', coerced, b', t',
          other, fit, pure_eq_ok.1 done⟩)
  · rintro (folded | folded | ⟨a, s, b, t, left, right, notNull, a', s', coerced, b', t', other, fit, rfl⟩)
    · simp [comparison, folded]
    · have plain : calledMatch? left = .ok none := by
        obtain ⟨_, _, _, _, _, _, _, rfl, _⟩ := fold?_some.1 folded
        rfl
      simp [comparison, fold?_none plain, folded]
    · unfold comparison
      simp only [fold?_none (calledMatch?_of_operand left), left, ok_bind,
        fold?_none (calledMatch?_of_operand right), right, notNull, coerced, other, fit, if_true]
      rfl

theorem filter_connective {op : Connective} {left right : TreeExpr} :
    filter entity (.binary (.connective op) left right) = .ok condition ↔
      ∃ a, filter entity left = .ok a ∧ ∃ b, filter entity right = .ok b ∧
        .logical op.operator a b = condition := by
  simp [filter]

theorem filter_not {inner : TreeExpr} :
    filter entity (.not inner) = .ok condition ↔
      ∃ a, filter entity inner = .ok a ∧ .not a = condition := by
  simp [filter]

theorem filter_call {text : Option (List Char)} {args : List TreeExpr} :
    filter entity (.call text args) = .ok condition ↔
      ∃ function kind, MatchCall (.call text args) function kind args ∧
        stringMatch entity function kind args = .ok condition := by
  simp only [filter, bind_eq_ok, readable_eq_ok, functionNamed_eq_ok, MatchCall, Expr.call.injEq,
    and_true]
  constructor
  · rintro ⟨name, rfl, function, known, done⟩
    cases kind : function.stringMatch? with
    | none => simp [kind] at done
    | some kind' => exact ⟨function, kind', ⟨name, rfl, known, kind⟩, by simpa [kind] using done⟩
  · rintro ⟨function, kind, ⟨name, rfl, known, isMatch⟩, done⟩
    exact ⟨name, rfl, function, known, by simpa [isMatch] using done⟩

theorem filter_path {text : Option (List Char)} :
    filter entity (.path text) = .ok condition ↔
      ∃ path, text = some path ∧ ∃ found, entity.resolve (String.ofList path) = .ok found ∧
        found.type = .boolean ∧
        .comparison .equal (.property (String.ofList path)) (.literal (.bool true)) = condition := by
  simp [filter]

theorem filter_boolean {text : Option (List Char)} :
    filter entity (.literal .boolean text) = .ok condition ↔
      ∃ cs, text = some cs ∧ .constant (isTrue cs) = condition := by
  simp [filter]

/-- Values other than these are no conditions, nor are the items of a clause. -/
def mayBeCondition : TreeExpr → Bool
  | .binary (.connective _) _ _ => true
  | .binary (.comparison _) _ _ => true
  | .not _ => true
  | .call _ _ => true
  | .path _ => true
  | .literal .boolean _ => true
  | _ => false

theorem mayBeCondition_of_filter {e : TreeExpr} (done : filter entity e = .ok condition) :
    mayBeCondition e = true := by
  cases e with
  | literal kind text => cases kind <;> first | rfl | simp [filter] at done
  | binary op left right => cases op <;> first | rfl | simp [filter] at done
  | path | not | call => rfl
  | brokenCall text reason =>
    obtain ⟨name, _, done⟩ := bind_eq_ok.1 done
    obtain ⟨function, _, done⟩ := bind_eq_ok.1 done
    cases kind : function.stringMatch? <;> simp [kind] at done
  | _ => simp [filter] at done

end Conditions

section Items

variable {entity : Entity}

theorem named_of_compute {done all : List ComputeItem} {item : TreeExpr} {items : List TreeExpr}
    (typed : compute entity done (item :: items) = .ok all) :
    ∃ value text, item = .named value text := by
  cases item with
  | named value text => exact ⟨value, text, rfl⟩
  | _ => simp [compute] at typed

theorem compute_named {done all : List ComputeItem} {value : TreeExpr} {text : Option (List Char)}
    {items : List TreeExpr} :
    compute entity done (.named value text :: items) = .ok all ↔
      ∃ cs, text = some cs ∧ (∀ other ∈ done, other.name ≠ String.ofList cs) ∧
        entity.property? (String.ofList cs) = none ∧
        ∃ a type, operand entity value = .ok (a, type) ∧
          compute entity (done ++ [⟨a, String.ofList cs, type⟩]) items = .ok all := by
  simp [compute]

theorem ordered_of_orderBy {number : Nat} {all : List OrderItem} {item : TreeExpr}
    {items : List TreeExpr} (typed : orderBy entity number (item :: items) = .ok all) :
    ∃ value descending, item = .ordered value descending := by
  cases item with
  | ordered value descending => exact ⟨value, descending, rfl⟩
  | _ => simp [orderBy] at typed

theorem orderBy_ordered {number : Nat} {all : List OrderItem} {value : TreeExpr} {descending : Bool}
    {items : List TreeExpr} :
    orderBy entity number (.ordered value descending :: items) = .ok all ↔
      ∃ a type, operand entity value = .ok (a, type) ∧ a.isLiteral = false ∧
        ∃ others, orderBy entity (number + 1) items = .ok others ∧ ⟨a, descending⟩ :: others = all := by
  simp [orderBy]

end Items

end Typing

end ClauseSql
