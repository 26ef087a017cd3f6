import ClauseSql.Proofs.Inlining
import ClauseSql.Proofs.Unambiguity
import Mathlib.Data.List.Flatten
import Mathlib.Data.List.Perm.Subperm

/-! The order of the arguments. What is bound to the placeholders of a filter can be read off its
model: the literals from left to right, except that a call lists those of its arguments in the order
in which the dialect writes them, and as often. -/
namespace ClauseSql

open scoped List
open Outcome Template

/-- The numbers of the arguments of a call in the order in which the dialect writes them. -/
def Dialect.writtenOrder (d : Dialect) (function : Function) (arity : Nat) : List Nat :=
  ((d.template? function arity).map fun text => slots (segments text.toList)).getD []

namespace Operand

mutual
def bound (d : Dialect) : Operand → List Value
  | .property _ => []
  | .literal value => [value]
  | .call function args =>
    (d.writtenOrder function args.length).flatMap fun i => (boundLists d args).getD i []
  | .arithmetic _ left right => left.bound d ++ right.bound d
def boundLists (d : Dialect) : List Operand → List (List Value)
  | [] => []
  | operand :: operands => operand.bound d :: boundLists d operands
end

mutual
def literals : Operand → List Value
  | .property _ => []
  | .literal value => [value]
  | .call _ args => literalsOfAll args
  | .arithmetic _ left right => left.literals ++ right.literals
def literalsOfAll : List Operand → List Value
  | [] => []
  | operand :: operands => operand.literals ++ literalsOfAll operands
end

end Operand

namespace Filter

def patternValue (operator : Operator) (text : String) : List Value :=
  (Like.pattern? operator text).toList.map .text

def bound (d : Dialect) : Filter → List Value
  | comparison _ left right =>
    if left.isNull then right.bound d
    else if right.isNull then left.bound d
    else left.bound d ++ right.bound d
  | stringMatch operator target text => target.bound d ++ patternValue operator text
  | logical _ left right => left.bound d ++ right.bound d
  | not inner => inner.bound d
  | constant _ => []

/-- The literals of a filter, but for the null in a test for null. The text of a string match counts
as the pattern it becomes. -/
def literals : Filter → List Value
  | comparison _ left right =>
    if left.isNull then right.literals
    else if right.isNull then left.literals
    else left.literals ++ right.literals
  | stringMatch operator target text => target.literals ++ patternValue operator text
  | logical _ left right => left.literals ++ right.literals
  | not inner => inner.literals
  | constant _ => []

end Filter

namespace Printed

@[simp] theorem complete_append (a b : Printed) :
    (a ++ b).complete = (a.complete && b.complete) := by
  rw [append_eq]
  cases first : a.complete <;> simp [first]

theorem args_append {a b : Printed} (complete : a.complete = true) :
    (a ++ b).args = a.args ++ b.args := by
  rw [append_eq, if_pos complete]
  exact piecesArgs_append a.pieces b.pieces

@[simp] theorem args_ofText (s : String) : (ofText s).args = [] := rfl

@[simp] theorem args_ofParam (value : Value) : (ofParam value).args = [value] := rfl

@[simp] theorem complete_ofText (s : String) : (ofText s).complete = true := rfl

@[simp] theorem args_ofText_append (s : String) (b : Printed) : (ofText s ++ b).args = b.args :=
  args_append rfl

@[simp] theorem args_append_ofText (a : Printed) (s : String) : (a ++ ofText s).args = a.args := by
  rw [append_eq]
  split
  · exact (piecesArgs_append a.pieces _).trans (List.append_nil _)
  · rfl

end Printed

theorem Template.fill_args {args : List Printed} {lists : List (List Value)}
    (each : ∀ (i : Nat) (arg : Printed),
      args[i]? = some arg → arg.complete = true → lists[i]? = some arg.args)
    {p : List Segment} (complete : (fill args p).complete = true) :
    (fill args p).args = (slots p).flatMap fun i => lists.getD i [] := by
  induction p with
  | nil => rfl
  | cons segment rest ih =>
    cases segment with
    | text c =>
      rw [fill, Printed.complete_append, Bool.and_eq_true] at complete
      rw [fill, Printed.args_ofText_append, ih complete.2]
      rfl
    | slot digits =>
      rw [fill] at complete ⊢
      split at complete
      · next arg found =>
        obtain ⟨i, index, here⟩ := Option.bind_eq_some_iff.1 found
        rw [Printed.complete_append, Bool.and_eq_true] at complete
        have bound := each i arg here complete.1
        rw [Printed.args_append complete.1, ih complete.2]
        simp [slots, index, bound]
      · cases complete

theorem Writer.render_eq_ok {e : Sql} {w : Writer} :
    ({} : Writer).render e = (.ok (), w) ↔
      e.print.complete = true ∧ ⟨e.print.text, e.print.args⟩ = w := by
  cases complete : e.print.complete <;> simp [render, write, complete]

namespace Generation

variable {d : Dialect} {entity : Entity}

mutual
theorem operand_args {o : Operand} {e : Sql} (made : operand d entity o = .ok e)
    (complete : e.print.complete = true) : e.print.args = o.bound d := by
  match o with
  | .property path =>
    simp only [operand] at made
    split at made
    · cases made
      rfl
    · cases made
  | .literal value =>
    cases made
    rfl
  | .call function args =>
    simp only [operand, bind_eq_ok, orElse_eq_ok, pure_eq_ok] at made
    obtain ⟨text, written, es, others, rfl⟩ := made
    rw [Sql.print] at complete ⊢
    rw [fill_args (operands_args others) complete, Operand.bound, Dialect.writtenOrder, written]
    rfl
  | .arithmetic op left right =>
    simp only [operand, bind_eq_ok, pure_eq_ok] at made
    obtain ⟨l, first, r, second, rfl⟩ := made
    simp only [Sql.print, if_true, Printed.complete_append, Bool.and_eq_true] at complete
    obtain ⟨-, left, -, right, -⟩ := complete
    simp [Sql.print, Printed.args_append left, operand_args first left, operand_args second right,
      Operand.bound]
theorem operands_args {os : List Operand} {es : List Sql} (made : operands d entity os = .ok es) :
    ∀ (i : Nat) (p : Printed), (Sql.printAll es)[i]? = some p → p.complete = true →
      (Operand.boundLists d os)[i]? = some p.args := by
  match os with
  | [] =>
    cases made
    intro i p found
    cases found
  | o :: os =>
    simp only [operands, bind_eq_ok, pure_eq_ok] at made
    obtain ⟨e, first, es, rest, rfl⟩ := made
    intro i p found complete
    cases i with
    | zero =>
      cases found
      rw [operand_args first complete]
      rfl
    | succ i => exact operands_args rest i p found complete
end

theorem comparison_args {operator : Operator} {left right : Operand} {e : Sql}
    (made : comparison d entity operator left right = .ok e) (complete : e.print.complete = true) :
    e.print.args = (Filter.comparison operator left right).bound d := by
  have nullTest {tested : Operand}
      (made : comparison.nullTest d entity operator tested = .ok e) :
      e.print.args = tested.bound d := by
    simp only [comparison.nullTest, bind_eq_ok, pure_eq_ok] at made
    obtain ⟨negated, -, v, value, rfl⟩ := made
    rw [Sql.print, Printed.complete_append, Bool.and_eq_true] at complete
    rw [Sql.print, Printed.args_append_ofText, operand_args value complete.1]
  unfold comparison at made
  split at made
  · cases made
  · next left right => simp [Filter.bound, left, right, nullTest made]
  · next left right => simp [Filter.bound, left, nullTest made]
  · next left right =>
    simp only [bind_eq_ok, pure_eq_ok] at made
    obtain ⟨op, -, v, value, w, other, rfl⟩ := made
    simp only [Sql.print, Bool.false_eq_true, if_false, Printed.complete_append,
      Bool.and_eq_true] at complete
    obtain ⟨first, -, second⟩ := complete
    simp [Sql.print, Printed.args_append first, operand_args value first,
      operand_args other second, Filter.bound, left, right]

theorem filter_args {f : Filter} {e : Sql} (made : filter d entity f = .ok e)
    (complete : e.print.complete = true) : e.print.args = f.bound d := by
  induction f generalizing e with
  | comparison operator left right => exact comparison_args made complete
  | stringMatch operator target text =>
    simp only [filter, bind_eq_ok, orElse_eq_ok, pure_eq_ok] at made
    obtain ⟨pattern, known, v, value, rfl⟩ := made
    rw [Sql.print, Printed.complete_append, Bool.and_eq_true] at complete
    rw [Sql.print, Printed.args_append complete.1, operand_args value complete.1]
    simp [Filter.bound, Filter.patternValue, known]
  | logical operator left right ih jh =>
    simp only [filter, bind_eq_ok, pure_eq_ok] at made
    obtain ⟨op, -, l, first, r, second, rfl⟩ := made
    simp only [Sql.print, Bool.false_eq_true, if_false, Printed.complete_append,
      Bool.and_eq_true] at complete
    obtain ⟨⟨-, left, -⟩, -, -, right, -⟩ := complete
    simp [Sql.print, Printed.args_append, left, ih first left, jh second right, Filter.bound]
  | not inner ih =>
    simp only [filter, bind_eq_ok, pure_eq_ok] at made
    obtain ⟨e, generated, rfl⟩ := made
    simp only [Sql.print, Printed.complete_append, Bool.and_eq_true] at complete
    simp [Sql.print, ih generated complete.2.1, Filter.bound]
  | constant value =>
    cases made
    rfl

theorem filterSql_args {f : Filter} {out : FilterSql} (made : filterSql d entity f = .ok out) :
    out.args = f.bound d := by
  obtain ⟨e, generated, complete, rfl⟩ := filterSql_eq_ok.1 made
  exact filter_args generated complete

end Generation

theorem Dialect.range_subperm_writtenOrder {d : Dialect} {function : Function} {count : Nat}
    {text : String} (accepted : function.signature.acceptsArity count = true)
    (written : d.template? function count = some text) :
    List.range count <+~ d.writtenOrder function count := by
  refine List.nodup_range.subperm fun i member => ?_
  have bound := List.mem_range.1 member
  by_cases rest : d = .sqlServer ∧ function = .substring ∧ count = 2
  · obtain ⟨rfl, rfl, rfl⟩ := rest
    exact (by decide +kernel : ∀ i < 2, i ∈ sqlServer.writtenOrder .substring 2) i bound
  · have form := mem_calls accepted (fun server call => rest ⟨server, call⟩) written
    rw [writtenOrder, written]
    exact (mem_slots_iff form).2 bound

namespace Operand

variable {d : Dialect} {entity : Entity}

theorem length_boundLists (d : Dialect) (os : List Operand) :
    (boundLists d os).length = os.length := by
  induction os with
  | nil => rfl
  | cons o os ih => rw [boundLists, List.length_cons, ih, List.length_cons]

theorem flatten_eq_flatMap_getD {α : Type} (lists : List (List α)) :
    lists.flatten = (List.range lists.length).flatMap fun i => lists.getD i [] := by
  induction lists with
  | nil => rfl
  | cons first rest ih =>
    rw [List.length_cons, List.range_succ_eq_map, List.flatMap_cons, List.flatMap_map,
      List.flatten_cons, ih]
    rfl

theorem range_flatMap_subperm {α : Type} {lists : List (List α)} {order : List Nat}
    (all : List.range lists.length <+~ order) :
    lists.flatten <+~ order.flatMap fun i => lists.getD i [] := by
  obtain ⟨part, perm, sub⟩ := all
  rw [flatten_eq_flatMap_getD]
  exact ⟨_, perm.flatMap_right _, sub.flatMap _⟩

mutual
theorem literals_subperm_bound {o : Operand} {type : ValueType} {e : Sql}
    (typed : o.HasType entity type) (made : Generation.operand d entity o = .ok e) :
    o.literals <+~ o.bound d := by
  match o, typed with
  | .property path, _ => exact .refl _
  | .literal value, _ => exact .refl _
  | .call function args, .call _ least most accepted =>
    simp only [Generation.operand, bind_eq_ok, Generation.orElse_eq_ok] at made
    obtain ⟨text, written, es, others, -⟩ := made
    have arity := Signature.acceptsArity_iff.2 ⟨least, most⟩
    have order := Dialect.range_subperm_writtenOrder arity written
    rw [← length_boundLists d args] at order
    exact (literalsOfAll_subperm_bound accepted others).trans (by
      simpa only [bound, length_boundLists] using range_flatMap_subperm order)
  | .arithmetic op left right, .arithmetic first second =>
    simp only [Generation.operand, bind_eq_ok] at made
    obtain ⟨l, left, r, right, -⟩ := made
    exact (literals_subperm_bound first left).append (literals_subperm_bound second right)
theorem literalsOfAll_subperm_bound {os : List Operand} {params : List Param} {es : List Sql}
    (typed : Accepts entity params os) (made : Generation.operands d entity os = .ok es) :
    literalsOfAll os <+~ (boundLists d os).flatten := by
  match os, typed with
  | [], _ => exact .refl _
  | o :: os, .cons typed _ others =>
    simp only [Generation.operands, bind_eq_ok] at made
    obtain ⟨e, first, es, rest, -⟩ := made
    exact (literals_subperm_bound typed first).append (literalsOfAll_subperm_bound others rest)
end

end Operand

theorem Filter.literals_subperm_bound {d : Dialect} {entity : Entity} {f : Filter} {e : Sql}
    (typed : f.WellTyped entity) (made : Generation.filter d entity f = .ok e) :
    f.literals <+~ f.bound d := by
  induction typed generalizing e with
  | @comparison op left right s t first second proper _ =>
    simp only [Generation.filter, Generation.comparison] at made
    simp only [literals, bound]
    cases isNull : left.isNull <;> cases isNull' : right.isNull
    · simp only [isNull, isNull', bind_eq_ok] at made
      obtain ⟨_, -, l, left, r, right, -⟩ := made
      exact (Operand.literals_subperm_bound first left).append
        (Operand.literals_subperm_bound second right)
    · simp only [isNull, isNull', Generation.comparison.nullTest, bind_eq_ok] at made
      obtain ⟨_, -, l, left, -⟩ := made
      exact Operand.literals_subperm_bound first left
    · simp only [isNull, isNull', Generation.comparison.nullTest, bind_eq_ok] at made
      obtain ⟨_, -, r, right, -⟩ := made
      exact Operand.literals_subperm_bound second right
    · simp [isNull, isNull'] at proper
  | stringMatch target =>
    simp only [Generation.filter, bind_eq_ok] at made
    obtain ⟨pattern, -, v, value, -⟩ := made
    exact (Operand.literals_subperm_bound target value).append (.refl _)
  | logical _ _ ih jh =>
    simp only [Generation.filter, bind_eq_ok] at made
    obtain ⟨_, -, l, left, r, right, -⟩ := made
    exact (ih left).append (jh right)
  | not _ ih =>
    simp only [Generation.filter, bind_eq_ok] at made
    obtain ⟨inner, generated, -⟩ := made
    exact ih generated
  | constant => exact .refl _

/-- Every placeholder has its argument. What a filter binds can be read off its model, and none of
the literals of a model that comes from typing is lost. -/
theorem arguments_match_placeholders (d : Dialect) (entity : Entity) :
    (∀ (e : Sql) (w : Writer) (write : Value → List Char), e.unmarked = true →
      ({} : Writer).render e = (.ok (), w) →
      w.sql.toList.count '?' = w.args.length ∧
      e.inlined? write = some (bindMarks write w.sql.toList w.args)) ∧
    (∀ f out, Generation.filterSql d entity f = .ok out → out.args = f.bound d) ∧
    ∀ e f out, Typing.filter entity e = .ok f → Generation.filterSql d entity f = .ok out →
      f.literals <+~ out.args := by
  refine ⟨fun e w write plain rendered => ?_, fun f out => Generation.filterSql_args, ?_⟩
  · obtain ⟨complete, rfl⟩ := Writer.render_eq_ok.1 rendered
    exact ⟨Sql.count_marks plain, Sql.inlined?_eq_bindMarks plain complete write⟩
  · intro e f out typed made
    rw [Generation.filterSql_args made]
    obtain ⟨a, generated, -, -⟩ := Generation.filterSql_eq_ok.1 made
    exact Filter.literals_subperm_bound (filter_sound typed).2 generated

/-- The filter `indexof(substring(concat(Owner/Name, 'x'), 1), 'b') ge 2`. -/
def lateLetter : Typing.TreeExpr :=
  .binary (.comparison .ge)
    (.call (some "indexof".toList)
      [.call (some "substring".toList)
        [.call (some "concat".toList)
          [.path (some "Owner/Name".toList), .literal .string (some "'x'".toList)],
          .literal .number (some "1".toList)],
        .literal .string (some "'b'".toList)])
    (.literal .number (some "2".toList))

def lateLetterModel : Filter :=
  .comparison .greaterOrEqual
    (.call .indexOf
      [.call .substring
        [.call .concat [.property "Owner/Name", .literal (.text "x")], .literal (.integer 1)],
        .literal (.text "b")])
    (.literal (.integer 2))

def lateLetterSql : FilterSql :=
  ⟨"(CHARINDEX(?, SUBSTRING(CONCAT(owner.name, ?), ? + 1, LEN(CONCAT(owner.name, ?)))) - 1) >= ?",
    [.text "b", .text "x", .integer 1, .text "x", .integer 2]⟩

def searched : Sql := .template "CHARINDEX({1}, {0})" [.param (.text "ab"), .param (.text "b")]

def spell : Value → List Char
  | .text s => s.toList
  | _ => []

theorem arguments_match_late_letter :
    searched.unmarked = true ∧
    ({} : Writer).render searched = (.ok (), ⟨"CHARINDEX(?, ?)", [.text "b", .text "ab"]⟩) ∧
    some "CHARINDEX(b, ab)".toList =
      some (bindMarks spell "CHARINDEX(?, ?)".toList [.text "b", .text "ab"]) ∧
    Typing.filter account lateLetter = .ok lateLetterModel ∧
    Generation.filterSql .sqlServer account lateLetterModel = .ok lateLetterSql ∧
    lateLetterSql.args = lateLetterModel.bound .sqlServer ∧
    [.text "x", .integer 1, .text "b", .integer 2] <+~ lateLetterSql.args := by
  have plain : searched.unmarked = true := by decide +kernel
  have rendered : ({} : Writer).render searched =
      (.ok (), ⟨"CHARINDEX(?, ?)", [.text "b", .text "ab"]⟩) := by decide +kernel
  have typed : Typing.filter account lateLetter = .ok lateLetterModel := by rfl
  have made : Generation.filterSql .sqlServer account lateLetterModel = .ok lateLetterSql := by decide +kernel
  obtain ⟨printed, bound, kept⟩ := arguments_match_placeholders .sqlServer account
  have inlined : searched.inlined? spell = some "CHARINDEX(b, ab)".toList := by decide +kernel
  have aligned := (printed searched _ spell plain rendered).2
  rw [inlined] at aligned
  exact ⟨plain, rendered, aligned, typed, made, bound _ _ made, kept _ _ _ typed made⟩

end ClauseSql
