import ClauseSql.Proofs.ConditionReading
import ClauseSql.Proofs.TypingExactness
import Mathlib.Logic.IsEmpty.Defs

/-! The SQL of a filter can be read in one way only. If an entity's columns and qualifiers have plain
names, then filters with the same SQL text come from the same expression up to the values in it, and
the arguments tell these. -/
namespace ClauseSql

open Outcome

def isPlainName (name : String) : Bool :=
  match name.toList with
  | [] => false
  | c :: cs => Text.isNameStart c && cs.all Text.isNameChar

inductive Property.Plain : Property → Prop
  | primitive {column : Column} : isPlainName column.name = true → Plain (.primitive column)
  | complex {members : Members} : (∀ member ∈ members, Plain member.2) → Plain (.complex members)
  | navigation {qualifier : String} {members : Members} : isPlainName qualifier = true →
      (∀ member ∈ members, Plain member.2) → Plain (.navigation qualifier members)

def Members.Plain (ms : Members) : Prop := ∀ member ∈ ms, member.2.Plain

def Entity.Plain (e : Entity) : Prop := e.members.Plain

theorem Members.Plain.find? {ms : Members} {name : String} {property : Property} (plain : ms.Plain)
    (found : ms.find? name = some property) : property.Plain := by
  obtain ⟨before, after, rfl, -⟩ := List.lookup_eq_some_iff.1 found
  exact plain (name, property) (by simp)

theorem Members.Plain.walk {ms : Members} {owner segment : String} {qualifier : Option String}
    {others : List String} {found : Located} (plain : ms.Plain)
    (qualified : ∀ name ∈ qualifier, isPlainName name = true)
    (walked : ms.walk owner qualifier segment others = .ok found) :
    isPlainName found.column.name = true ∧ ∀ name ∈ found.qualifier, isPlainName name = true := by
  induction others generalizing ms owner segment qualifier with
  | nil =>
    simp only [Members.walk] at walked
    split at walked
    · cases walked
    · next column here =>
      cases walked
      cases plain.find? here with | primitive name =>
      exact ⟨name, qualified⟩
    · cases walked
    · cases walked
  | cons next others ih =>
    simp only [Members.walk] at walked
    split at walked
    · cases walked
    · cases walked
    · next inner here =>
      cases plain.find? here with | complex inner =>
      exact ih inner qualified walked
    · next crossed target here =>
      cases plain.find? here with | navigation name target =>
      exact ih target (by simpa using name) walked

theorem isColumnText_of_isPlainName {name : String} (plain : isPlainName name = true) :
    isColumnText name.toList = true := by
  unfold isPlainName at plain
  split at plain
  · cases plain
  · next c cs chars =>
    rw [chars]
    simp only [Bool.and_eq_true, List.all_eq_true] at plain
    simp only [isColumnText, isColumnChar, Bool.and_eq_true, List.all_eq_true, Bool.or_eq_true]
    exact ⟨plain.1, fun c member => .inl (plain.2 c member)⟩

theorem isColumnText_append {cs ds : List Char} (first : isColumnText cs = true)
    (second : isColumnText ds = true) : isColumnText (cs ++ '.' :: ds) = true := by
  cases cs with
  | nil => cases first
  | cons c cs =>
    simp only [isColumnText, Bool.and_eq_true] at first
    have point : isColumnChar '.' = true := by decide
    simp only [List.cons_append, isColumnText, List.all_append, List.all_cons, Bool.and_eq_true]
    exact ⟨first.1, first.2, point, List.all_eq_true.2 (all_of_isColumnText second)⟩

theorem Entity.Plain.column {entity : Entity} {path : String} {found : Located}
    (plain : entity.Plain) (resolved : entity.resolve path = .ok found) :
    isColumnText found.sql.toList = true := by
  obtain ⟨name, qualifiers⟩ := Members.Plain.walk plain (by simp) resolved
  have column := isColumnText_of_isPlainName name
  unfold Located.sql
  split
  · next qualifier crossed =>
    have before := isColumnText_of_isPlainName (qualifiers qualifier crossed)
    simpa using isColumnText_append before column
  · exact column

mutual
/-- Whether the operand somewhere takes a text from an index to its end. -/
def Operand.takesRest : Operand → Bool
  | .property _ => false
  | .literal _ => false
  | .call function args => function = .substring ∧ args.length = 2 || Operand.anyTakesRest args
  | .arithmetic _ left right => left.takesRest || right.takesRest
def Operand.anyTakesRest : List Operand → Bool
  | [] => false
  | operand :: operands => operand.takesRest || anyTakesRest operands
end

def Filter.takesRest : Filter → Bool
  | comparison _ left right => left.takesRest || right.takesRest
  | stringMatch _ target _ => target.takesRest
  | logical _ left right => left.takesRest || right.takesRest
  | not inner => inner.takesRest
  | constant _ => false

theorem Function.arity_lt {function : Function} {count : Nat}
    (accepted : function.signature.acceptsArity count = true) : count < 4 := by
  have most : function.signature.params.length ≤ 3 := by cases function <;> decide
  simp only [Signature.acceptsArity, Bool.and_eq_true, decide_eq_true_eq] at accepted
  omega

theorem Dialect.mem_calls {d : Dialect} {function : Function} {count : Nat} {text : String}
    (accepted : function.signature.acceptsArity count = true)
    (whole : d = .sqlServer → ¬(function = .substring ∧ count = 2))
    (written : d.template? function count = some text) : .call text count ∈ d.forms := by
  refine List.mem_append_right _ (List.mem_flatMap.2 ⟨function, function.mem_all, ?_⟩)
  refine List.mem_filterMap.2 ⟨count, List.mem_range.2 (Function.arity_lt accepted), ?_⟩
  rw [if_pos ⟨accepted, fun looks => whole looks.1 looks.2⟩, written]
  rfl

theorem Dialect.mem_arithmetic (d : Dialect) (op : Arithmetic) : .arithmetic op ∈ d.forms := by
  cases op <;> simp [forms]

namespace Generation

variable {d : Dialect} {entity : Entity}

theorem orElse_eq_ok {α : Type} {cause : Unsupported} {x : Option α} {a : α} :
    orElse cause x = .ok a ↔ x = some a := by
  cases x <;> simp [orElse]

theorem neither {p : Prop} {a b : Bool} :
    (p → (a || b) = false) ↔ (p → a = false) ∧ (p → b = false) := by
  rw [Bool.or_eq_false_iff, imp_and]

mutual
theorem operand_scalar {o : Operand} {type : ValueType} {e : Sql} (plain : entity.Plain)
    (typed : o.HasType entity type) (whole : d = .sqlServer → o.takesRest = false)
    (made : operand d entity o = .ok e) : Scalar d e := by
  match o, typed with
  | .property path, .property resolved =>
    simp only [operand, resolved] at made
    cases made
    exact .column (plain.column resolved)
  | .literal value, _ =>
    cases made
    exact .param
  | .call function args, .call _ least most accepted =>
    simp only [operand, bind_eq_ok, orElse_eq_ok, pure_eq_ok] at made
    obtain ⟨text, written, es, others, rfl⟩ := made
    obtain ⟨here, inside⟩ := neither.1 whole
    obtain ⟨length, scalars⟩ := operands_scalar plain accepted inside others
    have arity := Signature.acceptsArity_iff.2 ⟨least, most⟩
    have member := Dialect.mem_calls arity (fun server => by simpa using here server) written
    rw [← length] at member
    exact .form member .call scalars
  | .arithmetic op left right, .arithmetic first second =>
    simp only [operand, bind_eq_ok, pure_eq_ok] at made
    obtain ⟨l, left, r, right, rfl⟩ := made
    obtain ⟨whole, whole'⟩ := neither.1 whole
    have scalar := operand_scalar plain first whole left
    have scalar' := operand_scalar plain second whole' right
    exact .form (d.mem_arithmetic op) .arithmetic (by simp [scalar, scalar'])
theorem operands_scalar {os : List Operand} {params : List Param} {es : List Sql}
    (plain : entity.Plain) (typed : Operand.Accepts entity params os)
    (whole : d = .sqlServer → Operand.anyTakesRest os = false)
    (made : operands d entity os = .ok es) : es.length = os.length ∧ ∀ e ∈ es, Scalar d e := by
  match os, typed with
  | [], _ =>
    cases made
    simp
  | o :: os, .cons typed _ others =>
    simp only [operands, bind_eq_ok, pure_eq_ok] at made
    obtain ⟨e, first, es, rest, rfl⟩ := made
    obtain ⟨whole, whole'⟩ := neither.1 whole
    have scalar := operand_scalar plain typed whole first
    obtain ⟨length, scalars⟩ := operands_scalar plain others whole' rest
    exact ⟨by simp [length], by simpa using ⟨scalar, scalars⟩⟩
end

theorem comparison_condition {op : Comparison} {left right : Operand} {s t : ValueType} {e : Sql}
    (plain : entity.Plain) (first : left.HasType entity s) (second : right.HasType entity t)
    (whole : d = .sqlServer → left.takesRest = false)
    (whole' : d = .sqlServer → right.takesRest = false)
    (made : comparison d entity op.operator left right = .ok e) : Condition d e := by
  have nullTest {tested : Operand} {type : ValueType} (typed : tested.HasType entity type)
      (whole : d = .sqlServer → tested.takesRest = false)
      (made : comparison.nullTest d entity op.operator tested = .ok e) : Condition d e := by
    simp only [comparison.nullTest, bind_eq_ok, pure_eq_ok] at made
    obtain ⟨negated, -, v, value, rfl⟩ := made
    have fits : (Test.null negated).Fits d := trivial
    exact .tested (operand_scalar plain typed whole value) fits
  unfold comparison at made
  split at made
  · cases made
  · exact nullTest first whole made
  · exact nullTest second whole' made
  · simp only [bind_eq_ok, orElse_eq_ok, pure_eq_ok] at made
    obtain ⟨operator, known, v, value, w, other, rfl⟩ := made
    have same : operator = .ofComparison op := by
      cases op <;> exact (Option.some.inj known).symm
    rw [same]
    have fits : (Test.compared op w).Fits d := operand_scalar plain second whole' other
    exact .tested (operand_scalar plain first whole value) fits

theorem filter_condition {f : Filter} {e : Sql} (plain : entity.Plain) (typed : f.WellTyped entity)
    (whole : d = .sqlServer → f.takesRest = false) (made : filter d entity f = .ok e) :
    Condition d e := by
  induction typed generalizing e with
  | comparison first second _ _ =>
    obtain ⟨whole, whole'⟩ := neither.1 whole
    exact comparison_condition plain first second whole whole' made
  | stringMatch target =>
    simp only [filter, bind_eq_ok, pure_eq_ok] at made
    obtain ⟨pattern, -, v, value, rfl⟩ := made
    have fits : (Test.like pattern).Fits d := trivial
    exact .tested (operand_scalar plain target whole value) fits
  | @logical op _ _ _ _ ih jh =>
    simp only [filter, bind_eq_ok, orElse_eq_ok, pure_eq_ok] at made
    obtain ⟨operator, known, l, left, r, right, rfl⟩ := made
    obtain ⟨whole, whole'⟩ := neither.1 whole
    have same : operator = .ofConnective op := by
      cases op <;> exact (Option.some.inj known).symm
    rw [same]
    exact .joined (ih whole left) (jh whole' right)
  | not _ ih =>
    simp only [filter, bind_eq_ok, pure_eq_ok] at made
    obtain ⟨inner, generated, rfl⟩ := made
    exact .negated (ih whole generated)
  | constant =>
    cases made
    exact .constant

end Generation

/-- Of two filters whose SQL has the same text, the SQL expressions are the same but for values and
patterns; if the arguments are the same too, so are the expressions. The text of a call that takes
a text from an index to its end is the same on SQL Server as that of a call that gives the length of
the whole text, so there such calls are left out. -/
theorem sql_text_determines_filter {entity : Entity} (plain : entity.Plain) (d : Dialect)
    {e₁ e₂ : Typing.TreeExpr} {f₁ f₂ : Filter} {out₁ out₂ : FilterSql}
    (typed₁ : Typing.filter entity e₁ = .ok f₁) (typed₂ : Typing.filter entity e₂ = .ok f₂)
    (made₁ : Generation.filterSql d entity f₁ = .ok out₁)
    (made₂ : Generation.filterSql d entity f₂ = .ok out₂)
    (whole : d = .sqlServer → f₁.takesRest = false ∧ f₂.takesRest = false)
    (same : out₁.sql = out₂.sql) :
    ∃ a b, Generation.filter d entity f₁ = .ok a ∧ Generation.filter d entity f₂ = .ok b ∧
      a.erase = b.erase ∧ (out₁.args = out₂.args → a = b) := by
  obtain ⟨a, generated₁, -, rfl⟩ := Generation.filterSql_eq_ok.1 made₁
  obtain ⟨b, generated₂, -, rfl⟩ := Generation.filterSql_eq_ok.1 made₂
  have first := Generation.filter_condition plain (filter_sound typed₁).2
    (fun server => (whole server).1) generated₁
  have second := Generation.filter_condition plain (filter_sound typed₂).2
    (fun server => (whole server).2) generated₂
  have erased := first.erase_eq second (congrArg String.toList same)
  refine ⟨a, b, generated₁, generated₂, erased, fun args => ?_⟩
  have values : a.args ++ [] = b.args ++ [] := by
    rw [List.append_nil, List.append_nil]
    exact args
  exact (first.eq_of_args second erased values).1

def account : Entity :=
  { name := "account"
    members := [("Balance", .primitive ⟨"balance", .decimal, true, none⟩),
      ("Owner", .navigation "owner" [("Name", .primitive ⟨"name", .text, true, none⟩)])] }

theorem account_plain : account.Plain := by
  have owner : Property.Plain
      (.navigation "owner" [("Name", .primitive ⟨"name", .text, true, none⟩)]) :=
    .navigation (by decide) (by simpa using .primitive (by decide))
  simpa [Entity.Plain, Members.Plain, account] using ⟨.primitive (by decide), owner⟩

/-- The filter `not (substring(Owner/Name, 1, 2) eq text or floor(Balance sub 1) gt number)`. -/
def unwanted (text number : String) : Typing.TreeExpr :=
  .not (.binary (.connective .or)
    (.binary (.comparison .eq)
      (.call (some "substring".toList) [.path (some "Owner/Name".toList),
        .literal .number (some "1".toList), .literal .number (some "2".toList)])
      (.literal .string (some text.toList)))
    (.binary (.comparison .gt)
      (.call (some "floor".toList) [.binary (.arithmetic .sub) (.path (some "Balance".toList))
        (.literal .number (some "1".toList))])
      (.literal .number (some number.toList))))

def unwantedModel (text : String) (number : Int) : Filter :=
  .not (.logical .or
    (.comparison .equal
      (.call .substring [.property "Owner/Name", .literal (.integer 1), .literal (.integer 2)])
      (.literal (.text text)))
    (.comparison .greaterThan
      (.call .floor [.arithmetic .sub (.property "Balance") (.literal (.integer 1))])
      (.literal (.integer number))))

def unwantedSql (text : String) (number : Int) : FilterSql :=
  ⟨"NOT ((SUBSTRING(owner.name, ? + 1, ?) = ?) OR (FLOOR((balance - ?)) > ?))",
    [.integer 1, .integer 2, .text text, .integer 1, .integer number]⟩

theorem sql_text_determines_unwanted_accounts :
    account.Plain ∧
    Typing.filter account (unwanted "'ab'" "3") = .ok (unwantedModel "ab" 3) ∧
    Typing.filter account (unwanted "'xyz'" "0") = .ok (unwantedModel "xyz" 0) ∧
    Generation.filterSql .sqlServer account (unwantedModel "ab" 3) = .ok (unwantedSql "ab" 3) ∧
    Generation.filterSql .sqlServer account (unwantedModel "xyz" 0) = .ok (unwantedSql "xyz" 0) ∧
    ∃ a b, Generation.filter .sqlServer account (unwantedModel "ab" 3) = .ok a ∧
      Generation.filter .sqlServer account (unwantedModel "xyz" 0) = .ok b ∧ a.erase = b.erase := by
  have typed₁ : Typing.filter account (unwanted "'ab'" "3") = .ok (unwantedModel "ab" 3) := by rfl
  have typed₂ : Typing.filter account (unwanted "'xyz'" "0") = .ok (unwantedModel "xyz" 0) := by rfl
  have made₁ : Generation.filterSql .sqlServer account (unwantedModel "ab" 3) =
      .ok (unwantedSql "ab" 3) := by decide +kernel
  have made₂ : Generation.filterSql .sqlServer account (unwantedModel "xyz" 0) =
      .ok (unwantedSql "xyz" 0) := by decide +kernel
  obtain ⟨a, b, generated₁, generated₂, erased, -⟩ :=
    sql_text_determines_filter account_plain .sqlServer typed₁ typed₂ made₁ made₂
      (fun _ => ⟨by decide, by decide⟩) rfl
  exact ⟨account_plain, typed₁, typed₂, made₁, made₂, a, b, generated₁, generated₂, erased⟩

end ClauseSql
