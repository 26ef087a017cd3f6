import ClauseSql.Proofs.TypingExactness

/-! What conditions mean for a row of data. Nothing is known of a comparison with a missing value, so
there are three truth values. Functions, arithmetic, comparisons and string matches may mean anything;
what an expression means, and what its model means, follows from that. Typing keeps the meaning. -/
namespace ClauseSql

open Outcome Typing

abbrev Truth := Option Bool

namespace Truth

def and : Truth → Truth → Truth
  | some false, _ => some false
  | _, some false => some false
  | some true, some true => some true
  | _, _ => none

def or : Truth → Truth → Truth
  | some true, _ => some true
  | _, some true => some true
  | some false, some false => some false
  | _, _ => none

def not (t : Truth) : Truth := Option.map (!·) t

def join : Connective → Truth → Truth → Truth
  | .and => and
  | .or => or

def equated : Comparison → Truth → Bool → Truth
  | .eq, t, b => Option.map (· == b) t
  | .ne, t, b => Option.map (· != b) t
  | _, _, _ => none

end Truth

/-- What the words of the language mean for values in `ν`. A missing value is no member of `ν`. -/
structure Interpretation (ν : Type) where
  literal : Value → ν
  function : Function → List (Option ν) → Option ν
  arithmetic : Arithmetic → Option ν → Option ν → Option ν
  comparison : Comparison → ν → ν → Truth
  stringMatch : StringMatch → ν → String → Truth
  /-- The truth of a value, if it has one. -/
  truth : ν → Truth
  truth_bool : ∀ b, truth (literal (.bool b)) = some b
  eq_bool : ∀ a b, comparison .eq (literal (.bool a)) (literal (.bool b)) = some (a == b)

namespace Interpretation

variable {ν : Type} (I : Interpretation ν)

def constant : Value → Option ν
  | .null => none
  | value => some (I.literal value)

def compare (op : Comparison) (v w : Option ν) : Truth :=
  v.bind fun a => w.bind fun b => I.comparison op a b

def matched (kind : StringMatch) (v : Option ν) (word : String) : Truth :=
  v.bind fun a => I.stringMatch kind a word

end Interpretation

/-- Whether a value is missing, or whether it is there. No other comparison with null says
anything. -/
def nullTest {ν : Type} : Comparison → Option ν → Truth
  | .eq, v => some v.isNone
  | .ne, v => some v.isSome
  | _, _ => none

structure Row {ν : Type} (I : Interpretation ν) (entity : Entity) where
  value : String → Option ν
  boolean : ∀ {path found v}, entity.resolve path = .ok found → found.type = .boolean →
    value path = some v → ∃ b, v = I.literal (.bool b)

section Expressions

variable {ν : Type} (I : Interpretation ν) (row : String → Option ν)

def Typing.literalMeaning (kind : LiteralKind) (text : List Char) : Option ν :=
  match literalValue kind text with
  | .ok value => I.constant value
  | .error _ => none

namespace Expr

mutual
def value : TreeExpr → Option ν
  | .path (some text) => row (String.ofList text)
  | .literal kind (some text) => literalMeaning I kind text
  | .call (some name) args => (Function.ofName? name).bind fun f => I.function f (values args)
  | .binary (.arithmetic op) left right => I.arithmetic op (value left) (value right)
  | _ => none
def values : List TreeExpr → List (Option ν)
  | [] => []
  | e :: es => value e :: values es
end

/-- The type of an expression that has a value, judged by its outermost part. -/
def type? (entity : Entity) : TreeExpr → Option ValueType
  | .path (some text) => (entity.resolve (String.ofList text)).toOption.map Located.type
  | .literal kind _ => some kind.type
  | .call (some name) _ => (Function.ofName? name).map fun f => f.signature.returns
  | .binary (.arithmetic _) _ _ => some .number
  | _ => none

def spelled? (text : String) : Option ValueType → Option Value
  | some .date => (Date.read text.toList).toOption.map .date
  | some .dateTime =>
    ((Moment.read? text.toList).map .moment).or ((Date.read text.toList).toOption.map .date)
  | _ => none

def valueBeside (other : Option ValueType) : TreeExpr → Option ν
  | .literal .string (some quoted) =>
    match (unquote? quoted).bind fun text => spelled? text other with
    | some value => I.constant value
    | none => literalMeaning I .string quoted
  | e => value I row e

def matched? : TreeExpr → Option Truth
  | .call (some name) [target, .literal .string (some quoted)] =>
    (Function.ofName? name).bind fun f => f.stringMatch?.bind fun kind =>
      (unquote? quoted).map fun word => I.matched kind (value I row target) word
  | _ => none

def isNull : TreeExpr → Bool
  | .literal .null _ => true
  | _ => false

def equatedMatch? (op : Comparison) (e : TreeExpr) : TreeExpr → Option Truth
  | .literal .boolean (some text) =>
    (matched? I row e).map fun truth => Truth.equated op truth (isTrue text)
  | _ => none

/-- The truth of a comparison. A string match may stand on either side, and so may null. -/
def compared (entity : Entity) (op : Comparison) (left right : TreeExpr) : Truth :=
  ((equatedMatch? I row op left right).or (equatedMatch? I row op right left)).getD <|
    if left.isNull then nullTest op (value I row right)
    else if right.isNull then nullTest op (value I row left)
    else I.compare op (valueBeside I row (type? entity right) left)
      (valueBeside I row (type? entity left) right)

def truth (entity : Entity) : TreeExpr → Truth
  | .binary (.connective op) left right => Truth.join op (truth entity left) (truth entity right)
  | .not inner => Truth.not (truth entity inner)
  | .binary (.comparison op) left right => compared I row entity op left right
  | .literal .boolean (some text) => some (isTrue text)
  | .path (some text) => (row (String.ofList text)).bind I.truth
  | .call name args => (matched? I row (.call name args)).join
  | _ => none

end Expr

end Expressions

namespace Operator

def comparison? : Operator → Option Comparison
  | .equal => some .eq
  | .notEqual => some .ne
  | .greaterThan => some .gt
  | .greaterOrEqual => some .ge
  | .lessThan => some .lt
  | .lessOrEqual => some .le
  | _ => none

def connective? : Operator → Option Connective
  | .and => some .and
  | .or => some .or
  | _ => none

def stringMatch? : Operator → Option StringMatch
  | .contains => some .contains
  | .startsWith => some .startsWith
  | .endsWith => some .endsWith
  | _ => none

end Operator

@[simp] theorem Comparison.comparison?_operator (op : Comparison) :
    op.operator.comparison? = some op := by
  cases op <;> rfl

@[simp] theorem Connective.connective?_operator (op : Connective) :
    op.operator.connective? = some op := by
  cases op <;> rfl

@[simp] theorem StringMatch.stringMatch?_operator (kind : StringMatch) :
    kind.operator.stringMatch? = some kind := by
  cases kind <;> rfl

section Models

variable {ν : Type} (I : Interpretation ν) (row : String → Option ν)

mutual
def Operand.value : Operand → Option ν
  | .property path => row path
  | .literal v => I.constant v
  | .call function args => I.function function (Operand.values args)
  | .arithmetic op left right => I.arithmetic op left.value right.value
def Operand.values : List Operand → List (Option ν)
  | [] => []
  | o :: os => o.value :: Operand.values os
end

def Operand.compared (op : Comparison) (left right : Operand) : Truth :=
  if left.isNull then nullTest op (right.value I row)
  else if right.isNull then nullTest op (left.value I row)
  else I.compare op (left.value I row) (right.value I row)

def Filter.truth : Filter → Truth
  | .comparison operator left right =>
    operator.comparison?.bind fun op => Operand.compared I row op left right
  | .stringMatch operator target word =>
    operator.stringMatch?.bind fun kind => I.matched kind (target.value I row) word
  | .logical operator left right =>
    operator.connective?.bind fun op => Truth.join op left.truth right.truth
  | .not inner => Truth.not inner.truth
  | .constant b => some b

end Models

namespace Typing

variable {ν : Type} {I : Interpretation ν} {entity : Entity}

section Operands

variable {row : String → Option ν}

mutual
theorem operand_value {e : TreeExpr} {o : Operand} {t : ValueType}
    (typed : operand entity e = .ok (o, t)) : o.value I row = Expr.value I row e := by
  match e with
  | .path _ =>
    obtain ⟨path, rfl, _, _, same⟩ := operand_path.1 typed
    cases same
    rfl
  | .literal kind _ =>
    obtain ⟨cs, rfl, value, read, same⟩ := operand_literal.1 typed
    cases same
    rw [Operand.value, Expr.value, literalMeaning, read]
  | .call _ args =>
    obtain ⟨name, rfl, function, named, _, _, values, rest, same⟩ := operand_call.1 typed
    cases same
    rw [Operand.value, Expr.value, named, arguments_values rest]
    rfl
  | .binary (.arithmetic op) left right =>
    obtain ⟨a, _, first, b, _, second, _, _, same⟩ := operand_arithmetic.1 typed
    cases same
    rw [Operand.value, Expr.value, operand_value first, operand_value second]
  | .binary (.connective _) _ _ => cases isValue_of_operand typed
  | .binary (.comparison _) _ _ => cases isValue_of_operand typed
  | .not _ => cases isValue_of_operand typed
  | .named _ _ => cases isValue_of_operand typed
  | .ordered _ _ => cases isValue_of_operand typed
  | .broken _ => cases isValue_of_operand typed
  | .brokenCall _ _ => cases isValue_of_operand typed
theorem arguments_values {function : Function} {index : Nat} {args : List TreeExpr}
    {values : List Operand} (typed : arguments entity function index args = .ok values) :
    Operand.values I row values = Expr.values I row args := by
  match args with
  | [] =>
    cases typed
    rfl
  | arg :: args =>
    obtain ⟨value, type, first, _, others, rest, rfl⟩ := arguments_cons.1 typed
    rw [Operand.values, Expr.values, operand_value first, arguments_values rest]
end

theorem operand_type? {e : TreeExpr} {o : Operand} {t : ValueType}
    (typed : operand entity e = .ok (o, t)) : Expr.type? entity e = some t := by
  have isValue := isValue_of_operand typed
  match e with
  | .path _ =>
    obtain ⟨path, rfl, found, resolved, same⟩ := operand_path.1 typed
    cases same
    simp [Expr.type?, resolved, Except.toOption]
  | .literal kind _ =>
    obtain ⟨cs, rfl, value, read, same⟩ := operand_literal.1 typed
    cases same
    rw [Expr.type?, literalValue_type read]
  | .call _ args =>
    obtain ⟨name, rfl, function, named, _, _, values, rest, same⟩ := operand_call.1 typed
    cases same
    rw [Expr.type?, named]
    rfl
  | .binary (.arithmetic op) left right =>
    obtain ⟨a, _, first, b, _, second, _, _, same⟩ := operand_arithmetic.1 typed
    cases same
    rfl

theorem valueBeside_plain {e : TreeExpr} {a : Operand} {s : ValueType}
    (typed : operand entity e = .ok (a, s)) (plain : ∀ text, a ≠ .literal (.text text))
    (other : Option ValueType) : Expr.valueBeside I row other e = Expr.value I row e := by
  unfold Expr.valueBeside
  split
  · next quoted =>
    obtain ⟨_, same, value, read, equal⟩ := operand_literal.1 typed
    cases same
    cases equal
    obtain ⟨text, _, rfl⟩ := map_eq_ok.1 read
    exact absurd rfl (plain text)
  · rfl

theorem valueBeside_other {t : ValueType} (other : t.isTemporal = false) (e : TreeExpr) :
    Expr.valueBeside I row (some t) e = Expr.value I row e := by
  unfold Expr.valueBeside
  split
  · next quoted =>
    have none : ((unquote? quoted).bind fun text => Expr.spelled? text (some t)) = none := by
      cases unquote? quoted <;> cases t <;> first | rfl | cases other
    rw [none]
    rfl
  · rfl

theorem coerce_value {e : TreeExpr} {a a' : Operand} {s s' t : ValueType}
    (typed : operand entity e = .ok (a, s)) (done : coerce a s t = .ok (a', s')) :
    a'.value I row = Expr.valueBeside I row (some t) e := by
  by_cases isText : ∃ text, a = .literal (.text text)
  · obtain ⟨text, rfl⟩ := isText
    obtain ⟨quoted, rfl, unquoted, rfl⟩ := operand_text.1 typed
    cases t with
    | date =>
      obtain ⟨date, read, same⟩ := bind_eq_ok.1 done
      cases same
      simp [Expr.valueBeside, unquoted, Expr.spelled?, dateOf_eq_ok.1 read, Except.toOption,
        Operand.value]
    | dateTime =>
      simp only [coerce] at done
      split at done
      · next moment read =>
        cases done
        simp [Expr.valueBeside, unquoted, Expr.spelled?, read, Operand.value]
      · next unread =>
        obtain ⟨date, read, same⟩ := bind_eq_ok.1 done
        cases same
        simp [Expr.valueBeside, unquoted, Expr.spelled?, unread, dateOf_eq_ok.1 read,
          Except.toOption, Operand.value]
    | _ =>
      cases done
      rw [operand_value typed, valueBeside_other rfl]
  · have plain : ∀ text, a ≠ .literal (.text text) := fun text same => isText ⟨text, same⟩
    have same := (coerce_plain plain s t).symm.trans done
    cases same
    rw [operand_value typed, valueBeside_plain typed plain]

theorem isNull_eq {e : TreeExpr} {a : Operand} {s : ValueType}
    (typed : operand entity e = .ok (a, s)) : a.isNull = Expr.isNull e := by
  rw [Bool.eq_iff_iff, operand_isNull typed]
  cases e with
  | literal kind text => cases kind <;> simp [IsNull, Expr.isNull]
  | _ => simp [IsNull, Expr.isNull]

theorem type_of_isNull {e : TreeExpr} {a : Operand} {s : ValueType}
    (typed : operand entity e = .ok (a, s)) (null : a.isNull = true) : s = .null := by
  obtain ⟨text, rfl⟩ := (operand_isNull typed).1 null
  obtain ⟨_, _, _, read, same⟩ := operand_literal.1 typed
  cases read
  cases same
  rfl

theorem coerced_values {left right : TreeExpr} {a b a' b' : Operand} {s t s' t' : ValueType}
    (first : operand entity left = .ok (a, s)) (second : operand entity right = .ok (b, t))
    (coerced : coerce a s t = .ok (a', s')) (coerced' : coerce b t s' = .ok (b', t')) :
    a'.value I row = Expr.valueBeside I row (some t) left ∧
      b'.value I row = Expr.valueBeside I row (some s) right := by
  refine ⟨coerce_value first coerced, ?_⟩
  by_cases isText : ∃ text, b = .literal (.text text)
  · obtain ⟨text, rfl⟩ := isText
    obtain ⟨_, _, _, rfl⟩ := operand_text.1 second
    have same := (coerce_other a s rfl).symm.trans coerced
    cases same
    exact coerce_value second coerced'
  · have plain : ∀ text, b ≠ .literal (.text text) := fun text same => isText ⟨text, same⟩
    have same := (coerce_plain plain t s').symm.trans coerced'
    cases same
    rw [operand_value second, valueBeside_plain second plain]

theorem matched?_of_stringMatch {e : TreeExpr} {function : Function} {kind : StringMatch}
    {args : List TreeExpr} {f : Filter} (called : MatchCall e function kind args)
    (typed : stringMatch entity function kind args = .ok f) :
    Expr.matched? I row e = some (f.truth I row) := by
  obtain ⟨name, rfl, named, isMatch⟩ := called
  obtain ⟨target, quoted, word, value, rfl, read, unquoted, rfl⟩ := stringMatch_eq_ok.1 typed
  simp [Expr.matched?, named, isMatch, unquoted, Filter.truth, operand_value read]

theorem matched?_of_operand {e : TreeExpr} {result : Operand × ValueType}
    (typed : operand entity e = .ok result) : Expr.matched? I row e = none := by
  unfold Expr.matched?
  split
  · obtain ⟨_, same, function, named, plain, _⟩ := operand_call.1 typed
    cases same
    rw [named, Option.bind_some, plain]
    rfl
  · rfl

theorem equatedMatch?_of_operand {e : TreeExpr} {result : Operand × ValueType}
    (typed : operand entity e = .ok result) (op : Comparison) (other : TreeExpr) :
    Expr.equatedMatch? I row op e other = none := by
  unfold Expr.equatedMatch?
  split
  · rw [matched?_of_operand typed]
    rfl
  · rfl

theorem truth_negated {function : Function} {op : Comparison} {expected negated : Bool}
    (sense : negation function op expected = .ok negated) (f : Filter) :
    (if negated then .not f else f : Filter).truth I row =
      Truth.equated op (f.truth I row) expected := by
  cases op with
  | eq | ne =>
    cases sense
    cases expected <;> cases truth : f.truth I row <;>
      simp [Filter.truth, truth, Truth.not, Truth.equated]
  | _ => cases sense

theorem equatedMatch?_of_fold {call other : TreeExpr} {op : Comparison} {f : Filter}
    (folded : fold? entity call op other = .ok (some f)) :
    Expr.equatedMatch? I row op call other = some (f.truth I row) ∧
      Expr.equatedMatch? I row op other call = none := by
  obtain ⟨function, kind, args, cs, negated, matched, called, rfl, sense, typed, rfl⟩ :=
    fold?_some.1 folded
  have found : Expr.matched? I row call = some (matched.truth I row) :=
    matched?_of_stringMatch called typed
  obtain ⟨name, rfl, -⟩ := called
  refine ⟨?_, rfl⟩
  rw [truth_negated sense, Expr.equatedMatch?, found, Option.map_some]

theorem comparison_truth {op : Comparison} {left right : TreeExpr} {f : Filter}
    (typed : comparison entity op left right = .ok f) :
    f.truth I row = Expr.compared I row entity op left right := by
  unfold Expr.compared
  rcases comparison_eq_ok.1 typed with folded | folded | values
  · rw [(equatedMatch?_of_fold folded).1, Option.some_or, Option.getD_some]
  · rw [(equatedMatch?_of_fold folded).1, (equatedMatch?_of_fold folded).2, Option.none_or,
      Option.getD_some]
  · obtain ⟨a, s, b, t, first, second, -, a', s', coerced, b', t', coerced', -, rfl⟩ := values
    have value : a'.value I row = _ := (coerced_values first second coerced coerced').1
    have value' : b'.value I row = _ := (coerced_values first second coerced coerced').2
    rw [equatedMatch?_of_operand first, equatedMatch?_of_operand second, Option.none_or,
      Option.getD_none]
    simp only [Filter.truth, Comparison.comparison?_operator, Option.bind_some, Operand.compared,
      coerce_isNull coerced, coerce_isNull coerced', isNull_eq first, isNull_eq second, value, value',
      operand_type? first, operand_type? second]
    split
    · next null =>
      rw [type_of_isNull first (isNull_eq first ▸ null), valueBeside_other rfl]
    · split
      · next null =>
        rw [type_of_isNull second (isNull_eq second ▸ null), valueBeside_other rfl]
      · rfl

end Operands

theorem property_truth {row : Row I entity} {path : String} {found : Located}
    (resolved : entity.resolve path = .ok found) (boolean : found.type = .boolean) :
    (Filter.comparison .equal (.property path) (.literal (.bool true))).truth I row.value =
      (row.value path).bind I.truth := by
  have compared : (Filter.comparison .equal (.property path) (.literal (.bool true))).truth I row.value =
      I.compare .eq (row.value path) (some (I.literal (.bool true))) := rfl
  rw [compared]
  cases value : row.value path with
  | none => rfl
  | some v =>
    obtain ⟨b, rfl⟩ := row.boolean resolved boolean value
    simp [Interpretation.compare, I.eq_bool, I.truth_bool]

/-- The model of a condition is true for the same rows as the condition. -/
theorem filter_truth {row : Row I entity} {e : TreeExpr} {f : Filter}
    (typed : filter entity e = .ok f) :
    f.truth I row.value = Expr.truth I row.value entity e := by
  match e with
  | .binary (.connective op) left right =>
    obtain ⟨a, first, b, second, rfl⟩ := filter_connective.1 typed
    rw [Expr.truth, ← filter_truth first, ← filter_truth second]
    simp [Filter.truth]
  | .binary (.comparison op) left right => exact comparison_truth typed
  | .not inner =>
    obtain ⟨a, read, rfl⟩ := filter_not.1 typed
    rw [Expr.truth, ← filter_truth read]
    rfl
  | .call _ _ =>
    obtain ⟨function, kind, called, typed⟩ := filter_call.1 typed
    rw [Expr.truth, matched?_of_stringMatch called typed]
    rfl
  | .path _ =>
    obtain ⟨path, rfl, found, resolved, boolean, rfl⟩ := filter_path.1 typed
    exact property_truth resolved boolean
  | .literal .boolean _ =>
    obtain ⟨text, rfl, rfl⟩ := filter_boolean.1 typed
    rfl
  | .literal .string _ => cases mayBeCondition_of_filter typed
  | .literal .number _ => cases mayBeCondition_of_filter typed
  | .literal .date _ => cases mayBeCondition_of_filter typed
  | .literal .dateTime _ => cases mayBeCondition_of_filter typed
  | .literal .null _ => cases mayBeCondition_of_filter typed
  | .binary (.arithmetic _) _ _ => cases mayBeCondition_of_filter typed
  | .named _ _ => cases mayBeCondition_of_filter typed
  | .ordered _ _ => cases mayBeCondition_of_filter typed
  | .broken _ => cases mayBeCondition_of_filter typed
  | .brokenCall _ _ => cases mayBeCondition_of_filter typed

end Typing

end ClauseSql
