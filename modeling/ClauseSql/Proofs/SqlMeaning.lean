import ClauseSql.Proofs.LiteralPatterns
import ClauseSql.Proofs.Meaning

/-! What SQL conditions mean for a row of data. A column holds what a path to it stands for, a template
computes what a function does that is written with it, and a pattern asks for what a string match
does that is written with it. So a generated condition means what its model means, and it means
nothing else if paths to one column stand for one value. -/
namespace ClauseSql

open Outcome

namespace Sql

section Relations

variable {ν : Type} (I : Interpretation ν) (row : String → Option ν) (d : Dialect) (entity : Entity)

mutual
inductive HasValue : Sql → Option ν → Prop
  | column {text path : String} {found : Located} : entity.resolve path = .ok found →
      found.sql = text → HasValue (.column text) (row path)
  | param {value : Value} : HasValue (.param value) (I.constant value)
  | template {text : String} {function : Function} {args : List Sql} {vs : List (Option ν)} :
      d.template? function args.length = some text → HaveValues args vs →
      HasValue (.template text args) (I.function function vs)
  | arithmetic {op : SqlOperator} {symbol : Arithmetic} {left right : Sql} {v w : Option ν}
      {parenthesized : Bool} : .ofArithmetic symbol = op → HasValue left v → HasValue right w →
      HasValue (.binary op left right parenthesized) (I.arithmetic symbol v w)
inductive HaveValues : List Sql → List (Option ν) → Prop
  | nil : HaveValues [] []
  | cons {e : Sql} {es : List Sql} {v : Option ν} {vs : List (Option ν)} : HasValue e v →
      HaveValues es vs → HaveValues (e :: es) (v :: vs)
end

inductive HasTruth : Sql → Truth → Prop
  | compared {op : SqlOperator} {symbol : Comparison} {left right : Sql} {v w : Option ν}
      {parenthesized : Bool} : .ofComparison symbol = op → HasValue I row d entity left v →
      HasValue I row d entity right w →
      HasTruth (.binary op left right parenthesized) (I.compare symbol v w)
  | joined {op : SqlOperator} {symbol : Connective} {left right : Sql} {s t : Truth}
      {parenthesized : Bool} : .ofConnective symbol = op → HasTruth left s → HasTruth right t →
      HasTruth (.binary op left right parenthesized) (Truth.join symbol s t)
  | group {inner : Sql} {t : Truth} : HasTruth inner t → HasTruth (.group inner) t
  | not {inner : Sql} {t : Truth} : HasTruth inner t → HasTruth (.not inner) (Truth.not t)
  | isNull {inner : Sql} {v : Option ν} {negated : Bool} : HasValue I row d entity inner v →
      HasTruth (.isNull inner negated) (some (if negated then v.isSome else v.isNone))
  | like {target : Sql} {v : Option ν} {kind : StringMatch} {word pattern : String} :
      HasValue I row d entity target v → Like.pattern? kind.operator word = some pattern →
      HasTruth (.like target pattern d.likeEscape) (I.matched kind v word)
  | constant {b : Bool} : HasTruth (.constant b) (some b)

end Relations

end Sql

/-- Decided for each dialect in one go, with the number of arguments that makes a difference and one
that makes none. -/
theorem Dialect.templates_apart (d : Dialect) : ∀ function ∈ Function.all, ∀ other ∈ Function.all,
    ∀ arity ∈ [0, 3], (d.template? function arity).isSome = true →
      d.template? function arity = d.template? other arity → function = other := by
  cases d <;> decide +kernel

theorem Dialect.template?_arity (d : Dialect) (function : Function) {arity : Nat}
    (other : arity ≠ 3) : d.template? function arity = d.template? function 0 := by
  cases d <;> cases function <;> first | rfl | exact congrArg some (if_neg other)

theorem Dialect.template?_inj {d : Dialect} {function other : Function} {arity : Nat} {text : String}
    (first : d.template? function arity = some text) (second : d.template? other arity = some text) :
    function = other := by
  have apart := d.templates_apart function function.mem_all other other.mem_all
  by_cases three : arity = 3
  · rw [three] at first second
    exact apart 3 (by simp) (by rw [first]; rfl) (first.trans second.symm)
  · rw [template?_arity d _ three] at first second
    exact apart 0 (by simp) (by rw [first]; rfl) (first.trans second.symm)

def Interpretation.FindsNothingAlike {ν : Type} (I : Interpretation ν) : Prop :=
  ∀ kind other v, I.stringMatch kind v "" = I.stringMatch other v ""

/-- Paths to one column stand for one value. -/
def Entity.Consistent {ν : Type} (entity : Entity) (row : String → Option ν) : Prop :=
  ∀ path other found found', entity.resolve path = .ok found → entity.resolve other = .ok found' →
    found.sql = found'.sql → row path = row other

namespace Sql

variable {ν : Type} {I : Interpretation ν} {row : String → Option ν} {d : Dialect} {entity : Entity}

mutual
theorem HasValue.unique (consistent : entity.Consistent row) {e : Sql} {v w : Option ν}
    (first : e.HasValue I row d entity v) (second : e.HasValue I row d entity w) : v = w := by
  match e, first, second with
  | .column _, .column resolved written, .column resolved' written' =>
    exact consistent _ _ _ _ resolved resolved' (written.trans written'.symm)
  | .param _, .param, .param => rfl
  | .template _ _, .template known values, .template known' values' =>
    rw [Dialect.template?_inj known known', HaveValues.unique consistent values values']
  | .binary _ _ _ _, .arithmetic op left right, .arithmetic op' left' right' =>
    rw [HasValue.unique consistent left left', HasValue.unique consistent right right',
      SqlOperator.ofArithmetic_injective (op.trans op'.symm)]
theorem HaveValues.unique (consistent : entity.Consistent row) {es : List Sql}
    {vs ws : List (Option ν)} (first : HaveValues I row d entity es vs)
    (second : HaveValues I row d entity es ws) : vs = ws := by
  match es, first, second with
  | [], .nil, .nil => rfl
  | _ :: _, .cons value values, .cons value' values' =>
    rw [HasValue.unique consistent value value', HaveValues.unique consistent values values']
end

theorem ofComparison_injective : Function.Injective SqlOperator.ofComparison := by
  intro a b same
  cases a <;> cases b <;> simp_all [SqlOperator.ofComparison]

theorem ofConnective_injective : Function.Injective SqlOperator.ofConnective := by
  intro a b same
  cases a <;> cases b <;> simp_all [SqlOperator.ofConnective]

theorem ofComparison_ne_ofConnective (op : Comparison) (other : Connective) :
    SqlOperator.ofComparison op ≠ .ofConnective other := by
  cases op <;> cases other <;> decide

theorem matched_unique (alike : I.FindsNothingAlike) {kind other : StringMatch}
    {word words pattern : String} (first : Like.pattern? kind.operator word = some pattern)
    (second : Like.pattern? other.operator words = some pattern) (v : Option ν) :
    I.matched kind v word = I.matched other v words := by
  rw [Like.pattern?_eq] at first second
  have same := String.ofList_injective (Option.some.inj (first.trans second.symm))
  obtain ⟨equal, rfl | empty⟩ := Like.patternChars_inj same
  · rw [String.toList_inj.1 equal]
  · have nothing : word = "" := String.toList_inj.1 empty
    have nothing' : words = "" := String.toList_inj.1 (equal.symm.trans empty)
    rw [nothing, nothing']
    cases v with
    | none => rfl
    | some a => exact alike kind other a

theorem HasTruth.unique (consistent : entity.Consistent row) (alike : I.FindsNothingAlike) {e : Sql}
    {s t : Truth} (first : e.HasTruth I row d entity s) (second : e.HasTruth I row d entity t) :
    s = t := by
  induction first generalizing t with
  | compared op left right =>
    cases second with
    | compared op' left' right' =>
      rw [left.unique consistent left', right.unique consistent right',
        ofComparison_injective (op.trans op'.symm)]
    | joined op' _ _ => exact absurd (op.trans op'.symm) (ofComparison_ne_ofConnective _ _)
  | joined op _ _ ih jh =>
    cases second with
    | compared op' _ _ => exact absurd (op'.trans op.symm) (ofComparison_ne_ofConnective _ _)
    | joined op' left right =>
      rw [ih left, jh right, ofConnective_injective (op.trans op'.symm)]
  | group _ ih =>
    cases second with
    | group inner => exact ih inner
  | not _ ih =>
    cases second with
    | not inner => rw [ih inner]
  | isNull value =>
    cases second with
    | isNull value' => rw [value.unique consistent value']
  | like value known =>
    cases second with
    | like value' known' =>
      rw [value.unique consistent value', matched_unique alike known known']
  | constant =>
    cases second
    rfl

end Sql

namespace Generation

variable {ν : Type} {I : Interpretation ν} {row : String → Option ν} {d : Dialect} {entity : Entity}

mutual
theorem operand_hasValue {o : Operand} {e : Sql} (made : operand d entity o = .ok e) :
    e.HasValue I row d entity (o.value I row) := by
  match o with
  | .property path =>
    simp only [operand] at made
    split at made
    · next found resolved =>
      cases made
      exact .column resolved rfl
    · cases made
  | .literal value =>
    cases made
    exact .param
  | .call function args =>
    simp only [operand, bind_eq_ok, orElse_eq_ok, pure_eq_ok] at made
    obtain ⟨text, written, es, others, rfl⟩ := made
    obtain ⟨length, values⟩ := operands_haveValues others
    exact .template (length ▸ written) values
  | .arithmetic op left right =>
    simp only [operand, bind_eq_ok, pure_eq_ok] at made
    obtain ⟨l, first, r, second, rfl⟩ := made
    exact .arithmetic rfl (operand_hasValue first) (operand_hasValue second)
theorem operands_haveValues {os : List Operand} {es : List Sql}
    (made : operands d entity os = .ok es) :
    es.length = os.length ∧ Sql.HaveValues I row d entity es (Operand.values I row os) := by
  match os with
  | [] =>
    cases made
    exact ⟨rfl, .nil⟩
  | o :: os =>
    simp only [operands, bind_eq_ok, pure_eq_ok] at made
    obtain ⟨e, first, es, rest, rfl⟩ := made
    obtain ⟨length, values⟩ := operands_haveValues rest
    exact ⟨congrArg (· + 1) length, .cons (operand_hasValue first) values⟩
end

theorem comparison?_some {operator : Operator} {op : SqlOperator}
    (known : comparison? operator = some op) :
    ∃ symbol, operator.comparison? = some symbol ∧ .ofComparison symbol = op := by
  cases operator <;> first | cases known; exact ⟨_, rfl, rfl⟩ | cases known

theorem connective?_some {operator : Operator} {op : SqlOperator}
    (known : connective? operator = some op) :
    ∃ symbol, operator.connective? = some symbol ∧ .ofConnective symbol = op := by
  cases operator <;> first | cases known; exact ⟨_, rfl, rfl⟩ | cases known

theorem nullTest?_some {operator : Operator} {negated : Bool}
    (known : nullTest? operator = some negated) :
    ∃ symbol, operator.comparison? = some symbol ∧
      ∀ v : Option ν, nullTest symbol v = some (if negated then v.isSome else v.isNone) := by
  cases operator <;> first | cases known; exact ⟨_, rfl, fun _ => rfl⟩ | cases known

theorem pattern?_some {operator : Operator} {word pattern : String}
    (known : Like.pattern? operator word = some pattern) :
    ∃ kind, operator.stringMatch? = some kind ∧ kind.operator = operator := by
  cases operator <;> first | exact ⟨_, rfl, rfl⟩ | cases known

theorem comparison_hasTruth {operator : Operator} {left right : Operand} {e : Sql}
    (made : comparison d entity operator left right = .ok e) :
    e.HasTruth I row d entity ((Filter.comparison operator left right).truth I row) := by
  have nullTest {tested : Operand} (made : comparison.nullTest d entity operator tested = .ok e) :
      e.HasTruth I row d entity
        (operator.comparison?.bind fun op => ClauseSql.nullTest op (tested.value I row)) := by
    simp only [comparison.nullTest, bind_eq_ok, orElse_eq_ok, pure_eq_ok] at made
    obtain ⟨negated, known, v, value, rfl⟩ := made
    obtain ⟨symbol, compares, tests⟩ := nullTest?_some known
    rw [compares, Option.bind_some, tests]
    exact .isNull (operand_hasValue value)
  unfold comparison at made
  split at made
  · cases made
  · next left right => simpa [Filter.truth, Operand.compared, left, right] using nullTest made
  · next left right => simpa [Filter.truth, Operand.compared, left] using nullTest made
  · next left right =>
    simp only [bind_eq_ok, orElse_eq_ok, pure_eq_ok] at made
    obtain ⟨op, known, v, value, w, other, rfl⟩ := made
    obtain ⟨symbol, compares, same⟩ := comparison?_some known
    simp only [Filter.truth, compares, Option.bind_some, Operand.compared, left, right,
      Bool.false_eq_true, if_false]
    exact .compared same (operand_hasValue value) (operand_hasValue other)

theorem filter_hasTruth {f : Filter} {e : Sql} (made : filter d entity f = .ok e) :
    e.HasTruth I row d entity (f.truth I row) := by
  induction f generalizing e with
  | comparison operator left right => exact comparison_hasTruth made
  | stringMatch operator target word =>
    simp only [filter, bind_eq_ok, orElse_eq_ok, pure_eq_ok] at made
    obtain ⟨pattern, known, v, value, rfl⟩ := made
    obtain ⟨kind, isMatch, rfl⟩ := pattern?_some known
    rw [Filter.truth, isMatch]
    exact .like (operand_hasValue value) known
  | logical operator left right ih jh =>
    simp only [filter, bind_eq_ok, orElse_eq_ok, pure_eq_ok] at made
    obtain ⟨op, known, l, first, r, second, rfl⟩ := made
    obtain ⟨symbol, joins, same⟩ := connective?_some known
    rw [Filter.truth, joins]
    exact .joined same (.group (ih first)) (.group (jh second))
  | not inner ih =>
    simp only [filter, bind_eq_ok, pure_eq_ok] at made
    obtain ⟨e, generated, rfl⟩ := made
    exact .not (ih generated)
  | constant value =>
    cases made
    exact .constant

end Generation

/-- A generated condition has the truth of the expression that it comes from, for every row and for
every meaning of functions, operators and string matches. It has no other truth if paths to one
column stand for one value and the matches do not tell empty words apart. -/
theorem sql_means_what_filter_means {ν : Type} (I : Interpretation ν) (entity : Entity)
    (row : Row I entity) (d : Dialect) {e : Typing.TreeExpr} {f : Filter} {q : Sql}
    (typed : Typing.filter entity e = .ok f) (made : Generation.filter d entity f = .ok q) :
    q.HasTruth I row.value d entity (Expr.truth I row.value entity e) ∧
      (entity.Consistent row.value → I.FindsNothingAlike →
        ∀ t, q.HasTruth I row.value d entity t → t = Expr.truth I row.value entity e) := by
  have truth : q.HasTruth I row.value d entity (Expr.truth I row.value entity e) := by
    rw [← Typing.filter_truth typed]
    exact Generation.filter_hasTruth made
  exact ⟨truth, fun consistent alike t other => other.unique consistent alike truth⟩

def plainMeaning : Interpretation Value where
  literal := id
  function _ _ := none
  arithmetic _ _ _ := none
  comparison
    | .ne, a, b => some (a != b)
    | .lt, _, _ => none
    | .gt, _, _ => none
    | _, a, b => some (a == b)
  stringMatch
    | kind, .text s, word => some (Like.fits (Like.patternChars kind word.toList) s.toList)
    | _, _, _ => none
  truth
    | .bool b => some b
    | _ => none
  truth_bool _ := rfl
  eq_bool a b := by cases a <;> cases b <;> rfl

theorem plainMeaning_findsNothingAlike : plainMeaning.FindsNothingAlike := by
  have everywhere (kind : StringMatch) (text : List Char) : kind.Holds [] text := by
    cases kind with
    | contains => exact List.nil_infix
    | startsWith => exact List.nil_prefix
    | endsWith => exact List.nil_suffix
  intro kind other v
  cases v with
  | text s =>
    have found := Like.fits_patternChars.2 (everywhere kind s.toList)
    have found' := Like.fits_patternChars.2 (everywhere other s.toList)
    exact congrArg some (found.trans found'.symm)
  | _ => rfl

def member : Entity :=
  { name := "member"
    members := [("Active", .primitive ⟨"active", .boolean, true, none⟩),
      ("Name", .primitive ⟨"name", .text, true, none⟩),
      ("Born", .primitive ⟨"born", .date, true, none⟩)] }

/-- The filter `not (contains(Name, 'x') eq false) and Active or Born ge '2000-01-01' and null eq Name`. -/
def namelessMember : Typing.TreeExpr :=
  .binary (.connective .or)
    (.binary (.connective .and)
      (.not (.binary (.comparison .eq)
        (.call (some "contains".toList)
          [.path (some "Name".toList), .literal .string (some "'x'".toList)])
        (.literal .boolean (some "false".toList))))
      (.path (some "Active".toList)))
    (.binary (.connective .and)
      (.binary (.comparison .ge) (.path (some "Born".toList))
        (.literal .string (some "'2000-01-01'".toList)))
      (.binary (.comparison .eq) (.literal .null (some "null".toList))
        (.path (some "Name".toList))))

theorem member_resolve {path : String} {found : Located}
    (resolved : member.resolve path = .ok found) :
    found.sql = "active" ∧ found.type = .boolean ∨ found.sql = "name" ∧ found.type = .string ∨
      found.sql = "born" ∧ found.type = .date := by
  simp only [Entity.resolve, member] at resolved
  generalize Path.segments path.toList = segments at resolved
  obtain ⟨first, others⟩ := segments
  cases others with
  | nil =>
    simp only [List.map_nil, Members.walk, Members.find?, List.lookup_cons, List.lookup_nil] at resolved
    grind [Located.sql, Located.type, ColumnType.valueType]
  | cons next others =>
    simp only [List.map_cons, Members.walk, Members.find?, List.lookup_cons, List.lookup_nil] at resolved
    grind

def namelessCell : String → Option Value
  | "active" => some (.bool false)
  | "born" => some (.date ⟨2000, 1, 1⟩)
  | _ => none

def namelessRow : Row plainMeaning member where
  value path := (member.resolve path).toOption.bind fun found => namelessCell found.sql
  boolean := by
    intro path found v resolved boolean held
    rcases member_resolve resolved with ⟨sql, -⟩ | ⟨-, type⟩ | ⟨-, type⟩
    · simp only [resolved, Except.toOption, Option.bind_some, sql, namelessCell] at held
      exact ⟨false, (Option.some.inj held).symm⟩
    · cases boolean.symm.trans type
    · cases boolean.symm.trans type

theorem namelessRow_consistent : member.Consistent namelessRow.value := by
  intro path other found found' resolved resolved' same
  simp [namelessRow, resolved, resolved', Except.toOption, same]

def namelessModel : Filter :=
  .logical .or
    (.logical .and
      (.not (.not (.stringMatch .contains (.property "Name") "x")))
      (.comparison .equal (.property "Active") (.literal (.bool true))))
    (.logical .and
      (.comparison .greaterOrEqual (.property "Born") (.literal (.date ⟨2000, 1, 1⟩)))
      (.comparison .equal (.literal .null) (.property "Name")))

def namelessSql : Sql :=
  .binary .or
    (.group (.binary .and
      (.group (.not (.not (.like (.column "name") "%x%" "ESCAPE '\\'"))))
      (.group (.binary .eq (.column "active") (.param (.bool true)) false)) false))
    (.group (.binary .and
      (.group (.binary .ge (.column "born") (.param (.date ⟨2000, 1, 1⟩)) false))
      (.group (.isNull (.column "name") false)) false))
    false

theorem sql_means_what_nameless_member_means :
    Typing.filter member namelessMember = .ok namelessModel ∧
    Generation.filter .sqlServer member namelessModel = .ok namelessSql ∧
    member.Consistent namelessRow.value ∧ plainMeaning.FindsNothingAlike ∧
    Expr.truth plainMeaning namelessRow.value member namelessMember = some true ∧
    ∀ t, namelessSql.HasTruth plainMeaning namelessRow.value .sqlServer member t ↔ t = some true := by
  have typed : Typing.filter member namelessMember = .ok namelessModel := by rfl
  have made : Generation.filter .sqlServer member namelessModel = .ok namelessSql := by rfl
  have truth : Expr.truth plainMeaning namelessRow.value member namelessMember = some true := by
    decide +kernel
  have meaning := sql_means_what_filter_means plainMeaning member namelessRow .sqlServer typed made
  rw [truth] at meaning
  refine ⟨typed, made, namelessRow_consistent, plainMeaning_findsNothingAlike, truth, fun t => ?_⟩
  constructor
  · exact meaning.2 namelessRow_consistent plainMeaning_findsNothingAlike t
  · rintro rfl
    exact meaning.1

end ClauseSql
