import ClauseSql.Proofs.Brackets

/-! Reading SQL conditions back. A condition is a test of a value, a constant, a negation or two
groups joined by a connective, and its text tells which. -/
namespace ClauseSql

namespace SqlOperator

def ofComparison : Comparison → SqlOperator
  | .eq => eq
  | .ne => ne
  | .gt => gt
  | .ge => ge
  | .lt => lt
  | .le => le

def ofConnective : Connective → SqlOperator
  | .and => and
  | .or => or

def comparison? : List Char → Option (Comparison × List Char)
  | ' ' :: '=' :: ' ' :: rest => some (.eq, rest)
  | ' ' :: '<' :: '>' :: ' ' :: rest => some (.ne, rest)
  | ' ' :: '>' :: ' ' :: rest => some (.gt, rest)
  | ' ' :: '>' :: '=' :: ' ' :: rest => some (.ge, rest)
  | ' ' :: '<' :: ' ' :: rest => some (.lt, rest)
  | ' ' :: '<' :: '=' :: ' ' :: rest => some (.le, rest)
  | _ => none

theorem comparison?_text (op : Comparison) (rest : List Char) :
    comparison? ((ofComparison op).text.toList ++ rest) = some (op, rest) := by
  cases op <;>
    simp only [ofComparison, text, String.reduceToList, List.cons_append, List.nil_append] <;> rfl

theorem comparison_inj {op op' : Comparison} {rest rest' : List Char}
    (same : (ofComparison op).text.toList ++ rest = (ofComparison op').text.toList ++ rest') :
    op = op' ∧ rest = rest' := by
  have read := congrArg comparison? same
  simpa [comparison?_text] using read

theorem connective_inj {op op' : Connective} {rest rest' : List Char}
    (same : (ofConnective op).text.toList ++ rest = (ofConnective op').text.toList ++ rest') :
    op = op' ∧ rest = rest' := by
  cases op <;> cases op' <;> simp_all [ofConnective, text]

end SqlOperator

inductive Test where
  | compared (op : Comparison) (other : Sql)
  | null (negated : Bool)
  | like (pattern : String)

namespace Test

def on (d : Dialect) (v : Sql) : Test → Sql
  | compared op other => .binary (.ofComparison op) v other false
  | null negated => .isNull v negated
  | like pattern => .like v pattern d.likeEscape

def tail (d : Dialect) : Test → List Char
  | compared op other => (SqlOperator.ofComparison op).text.toList ++ other.chars
  | null negated => (if negated then " IS NOT NULL" else " IS NULL").toList
  | like _ => " LIKE ".toList ++ ('?' :: (" " ++ d.likeEscape).toList)

theorem tail_compared (d : Dialect) (op : Comparison) (other : Sql) :
    (compared op other).tail d = (SqlOperator.ofComparison op).text.toList ++ other.chars := rfl

theorem tail_null (d : Dialect) (negated : Bool) :
    (null negated).tail d = (if negated then " IS NOT NULL" else " IS NULL").toList := rfl

theorem tail_like (d : Dialect) (pattern : String) :
    (like pattern).tail d = " LIKE ".toList ++ ('?' :: (" " ++ d.likeEscape).toList) := rfl

def args : Test → List Value
  | compared _ other => other.args
  | null _ => []
  | like pattern => [.text pattern]

def erase : Test → Test
  | compared op other => compared op other.erase
  | null negated => null negated
  | like _ => like ""

def Fits (d : Dialect) : Test → Prop
  | compared _ other => Scalar d other
  | null _ => True
  | like _ => True

variable {d : Dialect} {v w : Sql} {test other : Test}

theorem erase_on (d : Dialect) (v : Sql) (test : Test) :
    (test.on d v).erase = test.erase.on d v.erase := by
  cases test <;> rfl

theorem on_writes (scalar : Scalar d v) (fits : test.Fits d) :
    (test.on d v).print.Writes (v.chars ++ test.tail d) (v.args ++ test.args) := by
  have value := Sql.writes_of_complete scalar.complete
  cases test with
  | compared op other =>
    exact value.append <| (Printed.writes_text _).append <|
      Sql.writes_of_complete (Scalar.complete fits)
  | null negated => exact value.append (Printed.writes_text _)
  | like pattern =>
    exact value.append <| (Printed.writes_text _).append <|
      (Printed.writes_param _).append (Printed.writes_text _)

def sign : Test → Char
  | compared .eq _ => '='
  | compared .ne _ => '<'
  | compared .gt _ => '>'
  | compared .ge _ => '>'
  | compared .lt _ => '<'
  | compared .le _ => '<'
  | null _ => 'I'
  | like _ => 'L'

theorem tail_sign (d : Dialect) (test : Test) : ∃ rest, test.tail d = ' ' :: test.sign :: rest := by
  match test with
  | compared op other =>
    rw [tail_compared]
    cases op <;> simp [SqlOperator.ofComparison, SqlOperator.text, sign]
  | null negated =>
    rw [tail_null]
    cases negated <;> simp [sign]
  | like pattern =>
    rw [tail_like]
    simp [sign]

theorem sign_ne (test : Test) : test.sign ≠ '(' ∧ test.sign ≠ 'A' ∧ test.sign ≠ 'O' := by
  match test with
  | compared op _ => cases op <;> simp [sign]
  | null _ | like _ => simp [sign]

theorem stops_tail (d : Dialect) (test : Test) : stops (test.tail d) = true := by
  obtain ⟨rest, tail⟩ := test.tail_sign d
  rw [tail]
  rfl

theorem sign_eq (same : test.tail d = other.tail d) : test.sign = other.sign := by
  obtain ⟨rest, tail⟩ := test.tail_sign d
  obtain ⟨rest', tail'⟩ := other.tail_sign d
  rw [tail, tail'] at same
  exact (List.cons.inj (List.cons.inj same).2).1

theorem sign_compared (op : Comparison) (other : Sql) :
    (compared op other).sign ≠ 'I' ∧ (compared op other).sign ≠ 'L' := by
  cases op <;> simp [sign]

theorem erase_eq_of_tail (fits : test.Fits d) (fits' : other.Fits d)
    (same : test.tail d = other.tail d) : test.erase = other.erase := by
  have sign := sign_eq same
  match test, other with
  | compared op a, compared op' b =>
    rw [tail_compared, tail_compared] at same
    obtain ⟨rfl, chars⟩ := SqlOperator.comparison_inj same
    have equal : a.chars ++ [] = b.chars ++ [] := by rw [chars]
    have inner := (Scalar.erase_eq fits fits' rfl rfl equal).1
    simp only [erase, inner]
  | compared op a, null _ => exact absurd sign (sign_compared op a).1
  | compared op a, like _ => exact absurd sign (sign_compared op a).2
  | null _, compared op b => exact absurd sign.symm (sign_compared op b).1
  | null negated, null negated' =>
    rw [tail_null, tail_null] at same
    cases negated <;> cases negated' <;> simp_all
  | null _, like _ => simp [Test.sign] at sign
  | like _, compared op b => exact absurd sign.symm (sign_compared op b).2
  | like _, null _ => simp [Test.sign] at sign
  | like _, like _ => rfl

theorem eq_of_args {r s : List Value} (fits : test.Fits d) (fits' : other.Fits d)
    (same : test.erase = other.erase) (args : test.args ++ r = other.args ++ s) :
    test = other ∧ r = s := by
  match test, other with
  | compared op a, compared op' b =>
    simp only [erase, compared.injEq] at same
    obtain ⟨rfl, inner⟩ := same
    obtain ⟨rfl, rest⟩ := Scalar.eq_of_args fits fits' inner args
    exact ⟨rfl, rest⟩
  | null negated, null negated' =>
    simp only [erase, null.injEq] at same
    exact ⟨by rw [same], args⟩
  | like pattern, like pattern' =>
    simpa [Test.args] using args
  | compared _ _, null _ | compared _ _, like _ | null _, compared _ _ | null _, like _
  | like _, compared _ _ | like _, null _ => simp [erase] at same

theorem balanced_tail (fits : test.Fits d) : Balanced (test.tail d) := by
  match test with
  | compared op other =>
    rw [tail_compared]
    refine Balanced.append ?_ (Scalar.balanced fits)
    cases op <;> simp only [SqlOperator.ofComparison, SqlOperator.text, String.reduceToList] <;>
      exact balanced_of_nest rfl
  | null negated =>
    rw [tail_null]
    cases negated <;> simp only [Bool.false_eq_true, if_false, if_true, String.reduceToList] <;>
      exact balanced_of_nest rfl
  | like pattern =>
    rw [tail_like]
    cases d <;> simp only [Dialect.likeEscape] <;>
      exact balanced_of_nest (by decide +kernel)

theorem on_inj (same : test.on d v = other.on d w) : test = other ∧ v = w := by
  match test, other with
  | compared op a, compared op' b =>
    simp only [on, Sql.binary.injEq] at same
    cases op <;> cases op' <;> simp_all [SqlOperator.ofComparison]
  | null negated, null negated' => simp_all [on]
  | like pattern, like pattern' => simp_all [on]
  | compared _ _, null _ | compared _ _, like _ | null _, compared _ _ | null _, like _
  | like _, compared _ _ | like _, null _ => simp [on] at same

end Test

/-- The SQL of a filter. -/
inductive Condition (d : Dialect) : Sql → Prop
  | joined {op : Connective} {left right : Sql} : Condition d left → Condition d right →
      Condition d (.binary (.ofConnective op) (.group left) (.group right) false)
  | negated {inner : Sql} : Condition d inner → Condition d (.not inner)
  | tested {v : Sql} {test : Test} : Scalar d v → test.Fits d → Condition d (test.on d v)
  | constant {value : Bool} : Condition d (.constant value)

section Writing

variable {l r inner : Sql}

theorem joined_writes (op : Connective) (first : l.print.complete = true)
    (second : r.print.complete = true) :
    (Sql.binary (.ofConnective op) (.group l) (.group r) false).print.Writes
      ('(' :: (l.chars ++ ')' :: ((SqlOperator.ofConnective op).text.toList ++
        '(' :: (r.chars ++ [')'])))) (l.args ++ r.args) := by
  have group {e : Sql} (complete : e.print.complete = true) :
      (Sql.group e).print.Writes ('(' :: (e.chars ++ [')'])) e.args := by
    have written := (Printed.writes_text "(").append <|
      (Sql.writes_of_complete complete).append (Printed.writes_text ")")
    simpa [Sql.print] using written
  have written := (group first).append <|
    (Printed.writes_text (SqlOperator.ofConnective op).text).append (group second)
  simpa [Sql.print] using written

theorem negated_writes (complete : inner.print.complete = true) :
    (Sql.not inner).print.Writes ('N' :: 'O' :: 'T' :: ' ' :: '(' :: (inner.chars ++ [')']))
      inner.args := by
  have written := (Printed.writes_text "NOT (").append <|
    (Sql.writes_of_complete complete).append (Printed.writes_text ")")
  simpa [Sql.print] using written

theorem constant_writes (value : Bool) :
    (Sql.constant value).print.Writes ['1', ' ', '=', ' ', if value then '1' else '0'] [] := by
  cases value with
  | false => simpa [Sql.print] using Printed.writes_text "1 = 0"
  | true => simpa [Sql.print] using Printed.writes_text "1 = 1"

end Writing

namespace Condition

variable {d : Dialect} {a b l r inner v : Sql} {test : Test} {op : Connective}

theorem complete (condition : Condition d a) : a.print.complete = true := by
  induction condition with
  | joined _ _ ih jh => exact (joined_writes _ ih jh).complete
  | negated _ ih => exact (negated_writes ih).complete
  | tested scalar fits => exact (Test.on_writes scalar fits).complete
  | constant => rfl

theorem chars_joined (left : Condition d l) (right : Condition d r) :
    (Sql.binary (.ofConnective op) (.group l) (.group r) false).chars =
      '(' :: (l.chars ++ ')' :: ((SqlOperator.ofConnective op).text.toList ++
        '(' :: (r.chars ++ [')']))) :=
  (joined_writes op left.complete right.complete).chars

theorem chars_negated (condition : Condition d inner) :
    (Sql.not inner).chars = 'N' :: 'O' :: 'T' :: ' ' :: '(' :: (inner.chars ++ [')']) :=
  (negated_writes condition.complete).chars

theorem chars_tested (scalar : Scalar d v) (fits : test.Fits d) :
    (test.on d v).chars = v.chars ++ test.tail d :=
  (Test.on_writes scalar fits).chars

theorem chars_constant (value : Bool) :
    (Sql.constant value).chars = ['1', ' ', '=', ' ', if value then '1' else '0'] :=
  (constant_writes value).chars

theorem args_joined (left : Condition d l) (right : Condition d r) :
    (Sql.binary (.ofConnective op) (.group l) (.group r) false).args = l.args ++ r.args :=
  (joined_writes op left.complete right.complete).args

theorem args_negated (condition : Condition d inner) : (Sql.not inner).args = inner.args :=
  (negated_writes condition.complete).args

theorem args_tested (scalar : Scalar d v) (fits : test.Fits d) :
    (test.on d v).args = v.args ++ test.args :=
  (Test.on_writes scalar fits).args

theorem balanced (condition : Condition d a) : Balanced a.chars := by
  induction condition with
  | @joined op _ _ left right ih jh =>
    have text : Balanced (SqlOperator.ofConnective op).text.toList := by
      cases op <;> simp only [SqlOperator.ofConnective, SqlOperator.text, String.reduceToList] <;>
        exact balanced_of_nest rfl
    rw [chars_joined left right]
    simpa using ih.group.append (text.append jh.group)
  | negated inner ih =>
    have word : Balanced ['N', 'O', 'T', ' '] := balanced_of_nest rfl
    rw [chars_negated inner]
    exact word.append ih.group
  | tested scalar fits =>
    rw [chars_tested scalar fits]
    exact scalar.balanced.append (Test.balanced_tail fits)
  | @constant value =>
    rw [chars_constant]
    cases value <;> exact balanced_of_nest rfl

end Condition

section Telling

variable {d : Dialect} {v : Sql} {test : Test}

theorem tested_ne_joined {inner rest : List Char} (scalar : Scalar d v) (balanced : Balanced inner)
    (op : Connective) : v.chars ++ test.tail d ≠
      '(' :: (inner ++ ')' :: ((SqlOperator.ofConnective op).text.toList ++ rest)) := by
  intro same
  obtain ⟨after, tail⟩ := test.tail_sign d
  cases chars : v.chars with
  | nil => simp [chars, tail] at same
  | cons c cs =>
    rw [chars, List.cons_append] at same
    obtain ⟨rfl, inside⟩ := List.cons.inj same
    -- The value is a group too, and both groups end at the same bracket.
    obtain ⟨group, closed, rfl⟩ := scalar.enclosed chars
    rw [List.append_assoc, List.singleton_append] at inside
    have equal := (closed.cancel balanced inside).2
    obtain ⟨-, noAnd, noOr⟩ := test.sign_ne
    rw [tail] at equal
    cases op <;> simp_all [SqlOperator.ofConnective, SqlOperator.text]

theorem column_of_word {cs rest : List Char} (scalar : Scalar d v)
    (word : ∀ c ∈ cs, isColumnChar c = true) (nonempty : cs ≠ [])
    (same : v.chars ++ test.tail d = cs ++ ' ' :: rest) :
    isColumnText cs = true ∧ test.tail d = ' ' :: rest := by
  obtain ⟨rfl, tail⟩ := scalar.of_word word nonempty (test.stops_tail d) rfl same
  refine ⟨?_, tail⟩
  cases scalar with
  | column column => simpa using column
  | form _ applied => cases applied

theorem tested_ne_negated {inner : List Char} (scalar : Scalar d v) :
    v.chars ++ test.tail d ≠ 'N' :: 'O' :: 'T' :: ' ' :: '(' :: inner := by
  intro same
  have word : ['N', 'O', 'T'].all isColumnChar = true := rfl
  have tail := (column_of_word scalar (List.all_eq_true.1 word) (by simp) same).2
  obtain ⟨rest, signed⟩ := test.tail_sign d
  rw [signed] at tail
  exact test.sign_ne.1 (List.cons.inj (List.cons.inj tail).2).1

theorem tested_ne_constant {inner : List Char} (scalar : Scalar d v) :
    v.chars ++ test.tail d ≠ '1' :: ' ' :: inner := by
  intro same
  have word : ['1'].all isColumnChar = true := rfl
  have column := (column_of_word scalar (List.all_eq_true.1 word) (by simp) same).1
  cases column

end Telling

namespace Condition

variable {d : Dialect} {a b : Sql}

theorem erase_eq_of_tested {v : Sql} {test : Test} (scalar : Scalar d v) (fits : test.Fits d)
    (second : Condition d b) (same : (test.on d v).chars = b.chars) :
    (test.on d v).erase = b.erase := by
  rw [chars_tested scalar fits] at same
  cases second with
  | @joined op _ _ left right =>
    rw [chars_joined left right] at same
    exact absurd same (tested_ne_joined scalar left.balanced op)
  | negated inner =>
    rw [chars_negated inner] at same
    exact absurd same (tested_ne_negated scalar)
  | tested scalar' fits' =>
    rw [chars_tested scalar' fits'] at same
    obtain ⟨value, tail⟩ :=
      scalar.erase_eq scalar' (Test.stops_tail d _) (Test.stops_tail d _) same
    rw [Test.erase_on, Test.erase_on, value, Test.erase_eq_of_tail fits fits' tail]
  | constant =>
    rw [chars_constant] at same
    exact absurd same (tested_ne_constant scalar)

/-- Conditions with the same text are the same but for the values of their placeholders and for
their patterns. -/
theorem erase_eq (first : Condition d a) (second : Condition d b) (same : a.chars = b.chars) :
    a.erase = b.erase := by
  induction first generalizing b with
  | joined left right ih jh =>
    cases second with
    | joined left' right' =>
      rw [chars_joined left right, chars_joined left' right'] at same
      obtain ⟨group, others⟩ := left.balanced.cancel left'.balanced (List.cons.inj same).2
      obtain ⟨rfl, rest⟩ := SqlOperator.connective_inj others
      obtain ⟨group', -⟩ := right.balanced.cancel right'.balanced (List.cons.inj rest).2
      simp only [Sql.erase, ih left' group, jh right' group']
    | tested scalar fits =>
      exact (erase_eq_of_tested scalar fits (.joined left right) same.symm).symm
    | negated inner =>
      rw [chars_joined left right, chars_negated inner] at same
      cases same
    | constant =>
      rw [chars_joined left right, chars_constant] at same
      cases same
  | negated inner ih =>
    cases second with
    | negated inner' =>
      rw [chars_negated inner, chars_negated inner'] at same
      simp only [List.cons.injEq, true_and] at same
      simp only [Sql.erase, ih inner' (List.append_cancel_right same)]
    | tested scalar fits => exact (erase_eq_of_tested scalar fits (.negated inner) same.symm).symm
    | joined left right =>
      rw [chars_negated inner, chars_joined left right] at same
      cases same
    | constant =>
      rw [chars_negated inner, chars_constant] at same
      cases same
  | tested scalar fits => exact erase_eq_of_tested scalar fits second same
  | @constant value =>
    cases second with
    | @constant value' =>
      rw [chars_constant, chars_constant] at same
      cases value <;> cases value' <;> simp_all
    | tested scalar fits => exact (erase_eq_of_tested scalar fits .constant same.symm).symm
    | joined left right =>
      rw [chars_constant, chars_joined left right] at same
      cases same
    | negated inner =>
      rw [chars_constant, chars_negated inner] at same
      cases same

theorem eq_of_tested {v : Sql} {test : Test} {r s : List Value} (scalar : Scalar d v)
    (fits : test.Fits d) (second : Condition d b) (same : (test.on d v).erase = b.erase)
    (args : (test.on d v).args ++ r = b.args ++ s) : test.on d v = b ∧ r = s := by
  rw [Test.erase_on] at same
  cases second with
  | tested scalar' fits' =>
    rw [Test.erase_on] at same
    rw [args_tested scalar fits, args_tested scalar' fits', List.append_assoc,
      List.append_assoc] at args
    obtain ⟨asked, value⟩ := Test.on_inj same
    obtain ⟨rfl, rest⟩ := scalar.eq_of_args scalar' value args
    obtain ⟨rfl, after⟩ := Test.eq_of_args fits fits' asked rest
    exact ⟨rfl, after⟩
  | @joined op =>
    exfalso
    match test with
    | .compared op' _ =>
      simp only [Test.erase, Test.on, Sql.erase, Sql.binary.injEq] at same
      cases op <;> cases op' <;> simp [SqlOperator.ofComparison, SqlOperator.ofConnective] at same
    | .null _ | .like _ => simp [Test.erase, Test.on, Sql.erase] at same
  | negated | constant =>
    cases test <;> simp [Test.erase, Test.on, Sql.erase] at same

theorem eq_of_args {r s : List Value} (first : Condition d a) (second : Condition d b)
    (same : a.erase = b.erase) (args : a.args ++ r = b.args ++ s) : a = b ∧ r = s := by
  induction first generalizing b r s with
  | @joined op _ _ left right ih jh =>
    cases second with
    | @joined op' _ _ left' right' =>
      simp only [Sql.erase, Sql.binary.injEq, Sql.group.injEq] at same
      obtain ⟨operator, group, group', -⟩ := same
      rw [args_joined left right, args_joined left' right', List.append_assoc,
        List.append_assoc] at args
      obtain ⟨rfl, others⟩ := ih left' group args
      obtain ⟨rfl, rest⟩ := jh right' group' others
      exact ⟨by rw [operator], rest⟩
    | tested scalar fits =>
      obtain ⟨equal, rest⟩ := eq_of_tested scalar fits (.joined left right) same.symm args.symm
      exact ⟨equal.symm, rest.symm⟩
    | negated | constant => simp [Sql.erase] at same
  | negated inner ih =>
    cases second with
    | negated inner' =>
      rw [args_negated inner, args_negated inner'] at args
      obtain ⟨rfl, rest⟩ := ih inner' (Sql.not.inj same) args
      exact ⟨rfl, rest⟩
    | tested scalar fits =>
      obtain ⟨equal, rest⟩ := eq_of_tested scalar fits (.negated inner) same.symm args.symm
      exact ⟨equal.symm, rest.symm⟩
    | joined | constant => simp [Sql.erase] at same
  | tested scalar fits => exact eq_of_tested scalar fits second same args
  | constant =>
    cases second with
    | constant => exact ⟨same, args⟩
    | tested scalar fits =>
      obtain ⟨equal, rest⟩ := eq_of_tested scalar fits .constant same.symm args.symm
      exact ⟨equal.symm, rest.symm⟩
    | joined | negated => simp [Sql.erase] at same

end Condition

end ClauseSql
