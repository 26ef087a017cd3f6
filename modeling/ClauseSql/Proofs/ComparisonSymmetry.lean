import ClauseSql.Proofs.TypingExactness

/-! The sides of a comparison can be exchanged. Typing looks at the left side first: it folds a string
match there, and it coerces the left side before the right one. Neither shows in the result. At most one
side is a string match next to a truth value, and at most one side is a text next to a date or a date-time,
so each order finds the same work to do. -/
namespace ClauseSql

open Outcome Typing

/-- A comparison and the same comparison with its sides exchanged, or a string match, negated or not,
and itself. -/
inductive Filter.Mirrors (operator : Operator) : Filter → Filter → Prop
  | comparison {left right : Operand} :
      Mirrors operator (.comparison operator left right) (.comparison operator right left)
  | stringMatch {kind : Operator} {target : Operand} {pattern : String} :
      Mirrors operator (.stringMatch kind target pattern) (.stringMatch kind target pattern)
  | negatedMatch {kind : Operator} {target : Operand} {pattern : String} :
      Mirrors operator (.not (.stringMatch kind target pattern))
        (.not (.stringMatch kind target pattern))

section Sides

variable {entity : Entity} {op : Comparison} {left right : TreeExpr}

/-- A text is a string, so it is not itself what makes a date of the text on the other side. -/
theorem coerce_exchanged {a b a' b' : Operand} {s t s' t' : ValueType}
    (first : operand entity left = .ok (a, s)) (second : operand entity right = .ok (b, t))
    (coerced : coerce a s t = .ok (a', s')) (coerced' : coerce b t s' = .ok (b', t')) :
    coerce b t s = .ok (b', t') ∧ coerce a s t' = .ok (a', s') := by
  by_cases text : ∃ word, a = .literal (.text word)
  · obtain ⟨word, rfl⟩ := text
    obtain ⟨_, _, _, rfl⟩ := operand_text.1 first
    cases temporal : t.isTemporal with
    | false =>
      cases (coerce_other _ _ temporal).symm.trans coerced
      cases (coerce_other b t rfl).symm.trans coerced'
      exact ⟨coerce_other _ _ rfl, coerce_other _ _ temporal⟩
    | true =>
      -- The other side is a date or a date-time, hence no text, and is left alone in both orders.
      have plain : ∀ other, b ≠ .literal (.text other) := by
        rintro other rfl
        obtain ⟨_, _, _, rfl⟩ := operand_text.1 second
        cases temporal
      cases (coerce_plain plain t s').symm.trans coerced'
      exact ⟨coerce_plain plain t _, coerced⟩
  · have plain : ∀ word, a ≠ .literal (.text word) := fun word same => text ⟨word, same⟩
    cases (coerce_plain plain s t).symm.trans coerced
    exact ⟨coerced', coerce_plain plain s t'⟩

theorem fold?_shape {f : Filter} (folded : fold? entity left op right = .ok (some f)) :
    ∃ kind target pattern,
      f = .stringMatch kind target pattern ∨ f = .not (.stringMatch kind target pattern) := by
  obtain ⟨_, kind, _, _, negated, _, _, _, _, typed, rfl⟩ := fold?_some.1 folded
  obtain ⟨_, _, pattern, target, _, _, _, rfl⟩ := stringMatch_eq_ok.1 typed
  refine ⟨kind.operator, target, pattern, ?_⟩
  cases negated
  · exact .inl rfl
  · exact .inr rfl

theorem fold?_mirrors {f : Filter} (folded : fold? entity left op right = .ok (some f)) :
    f.Mirrors op.operator f := by
  obtain ⟨_, _, _, rfl | rfl⟩ := fold?_shape folded
  · exact .stringMatch
  · exact .negatedMatch

theorem comparison_exchanged {f : Filter} (typed : comparison entity op left right = .ok f) :
    ∃ g, comparison entity op right left = .ok g ∧ f.Mirrors op.operator g := by
  rcases comparison_eq_ok.1 typed with folded | folded | values
  · exact ⟨f, comparison_eq_ok.2 (.inr (.inl folded)), fold?_mirrors folded⟩
  · exact ⟨f, comparison_eq_ok.2 (.inl folded), fold?_mirrors folded⟩
  · obtain ⟨a, s, b, t, first, second, notNull, a', s', coerced, b', t', coerced', fit, rfl⟩ := values
    obtain ⟨exchanged, exchanged'⟩ := coerce_exchanged first second coerced coerced'
    rw [Bool.and_comm] at notNull
    rw [ValueType.comparable_comm] at fit
    exact ⟨.comparison op.operator b' a', comparison_eq_ok.2 (.inr (.inr
      ⟨b, t, a, s, second, first, notNull, b', t', exchanged, a', s', exchanged', fit, rfl⟩)), .comparison⟩

theorem comparison_isNull {operator : Operator} {a b : Operand}
    (typed : comparison entity op left right = .ok (.comparison operator a b)) :
    (a.isNull = true ↔ IsNull left) ∧ (b.isNull = true ↔ IsNull right) := by
  rcases comparison_eq_ok.1 typed with folded | folded | values
  · obtain ⟨_, _, _, equal | equal⟩ := fold?_shape folded <;> cases equal
  · obtain ⟨_, _, _, equal | equal⟩ := fold?_shape folded <;> cases equal
  · obtain ⟨_, _, _, _, first, second, _, _, _, coerced, _, _, coerced', _, equal⟩ := values
    cases equal
    rw [coerce_isNull coerced, coerce_isNull coerced']
    exact ⟨operand_isNull first, operand_isNull second⟩

end Sides

namespace Generation

theorem comparison_exchanged {d : Dialect} {entity : Entity} {operator : Operator} {a b : Operand}
    (null : a.isNull = true ∨ b.isNull = true) :
    comparison d entity operator a b = comparison d entity operator b a := by
  unfold comparison
  rcases null with null | null
  · cases other : b.isNull <;> simp [null]
  · cases other : a.isNull <;> simp [null]

end Generation

/-- A comparison and the one with its sides exchanged are both refused, or both have models, which mirror
each other. With null on one side they come to the same SQL. -/
theorem comparisons_are_symmetric (entity : Entity) (op : Comparison) (left right : TreeExpr) :
    Agree (Filter.Mirrors op.operator) (filter entity (.binary (.comparison op) left right))
      (filter entity (.binary (.comparison op) right left)) ∧
    (IsNull left ∨ IsNull right →
      ∀ f g, filter entity (.binary (.comparison op) left right) = .ok f →
        filter entity (.binary (.comparison op) right left) = .ok g →
        ∀ d : Dialect, Generation.filterSql d entity f = Generation.filterSql d entity g) := by
  simp only [filter]
  constructor
  · cases typed : comparison entity op left right with
    | ok f =>
      obtain ⟨g, exchanged, mirrors⟩ := comparison_exchanged typed
      rw [exchanged]
      exact .ok mirrors
    | error =>
      cases exchanged : comparison entity op right left with
      | error => exact .error
      | ok g =>
        obtain ⟨f, other, _⟩ := comparison_exchanged exchanged
        cases typed.symm.trans other
  · intro null f g typed exchanged d
    obtain ⟨_, same, mirrors⟩ := comparison_exchanged typed
    cases exchanged.symm.trans same
    cases mirrors with
    | stringMatch | negatedMatch => rfl
    | comparison =>
      obtain ⟨first, second⟩ := comparison_isNull typed
      rw [← first, ← second] at null
      simp only [Generation.filterSql, Generation.filter, Generation.comparison_exchanged null]

theorem comparisons_are_symmetric_absent :
    let entity : Entity :=
      { name := "Task", members := [("Due", .primitive ⟨"due", .dateTime, true, none⟩)] }
    let due : TreeExpr := .path (some "Due".toList)
    let null : TreeExpr := .literal .null (some "null".toList)
    ∃ f g, filter entity (.binary (.comparison .ne) null due) = .ok f ∧
      filter entity (.binary (.comparison .ne) due null) = .ok g ∧ f.Mirrors .notEqual g ∧
      ∀ d : Dialect, Generation.filterSql d entity f = .ok ⟨"due IS NOT NULL", []⟩ ∧
        Generation.filterSql d entity g = .ok ⟨"due IS NOT NULL", []⟩ := by
  intro entity due null
  have typed : filter entity (.binary (.comparison .ne) null due) =
      .ok (.comparison .notEqual (.literal .null) (.property "Due")) := rfl
  have exchanged : filter entity (.binary (.comparison .ne) due null) =
      .ok (.comparison .notEqual (.property "Due") (.literal .null)) := rfl
  obtain ⟨both, same⟩ := comparisons_are_symmetric entity .ne null due
  rw [typed, exchanged] at both
  cases both with | ok mirrors
  refine ⟨_, _, typed, exchanged, mirrors, fun d => ?_⟩
  have made : Generation.filterSql d entity (.comparison .notEqual (.literal .null) (.property "Due")) =
      .ok ⟨"due IS NOT NULL", []⟩ := rfl
  exact ⟨made, (same (.inl ⟨_, rfl⟩) _ _ typed exchanged d).symm.trans made⟩

end ClauseSql
