import ClauseSql.Proofs.ArgumentOrder
import ClauseSql.Proofs.ClauseTyping

/-! Why a typed clause may have no SQL. There is one function that some dialects do not have, and null
can be tested for but not put in order. Nothing else stops a model that comes from typing: its columns
are known, and its templates have slots only for arguments that are there. -/
namespace ClauseSql

open Outcome Template

mutual
def Operand.calls (sought : Function) : Operand → Bool
  | .property _ => false
  | .literal _ => false
  | .call function args => function == sought || Operand.anyCalls sought args
  | .arithmetic _ left right => left.calls sought || right.calls sought
def Operand.anyCalls (sought : Function) : List Operand → Bool
  | [] => false
  | operand :: operands => operand.calls sought || Operand.anyCalls sought operands
end

namespace Filter

def calls (sought : Function) : Filter → Bool
  | comparison _ left right => left.calls sought || right.calls sought
  | stringMatch _ target _ => target.calls sought
  | logical _ left right => left.calls sought || right.calls sought
  | not inner => inner.calls sought
  | constant _ => false

def ordersNull : Filter → Bool
  | comparison operator left right =>
    (left.isNull || right.isNull) && !(operator == .equal || operator == .notEqual)
  | stringMatch _ _ _ => false
  | logical _ left right => left.ordersNull || right.ordersNull
  | not inner => inner.ordersNull
  | constant _ => false

end Filter

namespace Dialect

def lacksOffsets : Dialect → Bool
  | sqlite => true
  | mysql => true
  | _ => false

theorem lacksOffsets_iff {d : Dialect} : d.lacksOffsets = true ↔ d = .sqlite ∨ d = .mysql := by
  cases d <;> decide

theorem template?_isSome (d : Dialect) {function : Function} (plain : function.stringMatch? = none)
    (count : Nat) : (d.template? function count).isSome =
      !(d.lacksOffsets && function == .totalOffsetMinutes) := by
  cases d <;> cases function <;> first | rfl | cases plain

theorem template?_slots {d : Dialect} {function : Function} {count : Nat} {text : String}
    (accepted : function.signature.acceptsArity count = true)
    (written : d.template? function count = some text) {digits : List Char}
    (slot : .slot digits ∈ segments text.toList) : ∃ i, index? digits = some i ∧ i < count := by
  by_cases rest : d = .sqlServer ∧ function = .substring ∧ count = 2
  · obtain ⟨rfl, rfl, rfl⟩ := rest
    cases written
    have numbered : (Form.call "SUBSTRING({0}, {1} + 1, LEN({0}))" 2).numbered = true := by
      decide +kernel
    simp only [Form.numbered, Bool.and_eq_true, List.all_eq_true] at numbered
    have known := numbered.1 _ slot
    simp only [Option.any_eq_true, decide_eq_true_eq] at known
    exact known
  · exact numbered_slots (mem_calls accepted (fun server call => rest ⟨server, call⟩) written) slot

end Dialect

inductive Refusal (d : Dialect) : Error → Prop
  | offset : Refusal d (.unsupported (.noTemplate .totalOffsetMinutes d))
  | order (operator : Operator) : Refusal d (.unsupported (.nullOrdered operator))

/-- How a step of generation ends: with a refusal if the flag is set, else with a result that is as it
should be. -/
inductive Settles {α : Type} (d : Dialect) (sound : α → Prop) : Bool → Except Error α → Prop
  | made {a : α} (holds : sound a) : Settles d sound false (.ok a)
  | refused {error : Error} (cause : Refusal d error) : Settles d sound true (.error error)

namespace Settles

variable {α β : Type} {d : Dialect} {sound : α → Prop} {other : β → Prop} {a b : Bool}
  {x : Except Error α}

theorem bind (first : Settles d sound a x) {f : α → Except Error β}
    (next : ∀ v, sound v → Settles d other b (f v)) : Settles d other (a || b) (x >>= f) := by
  cases first with
  | made holds => exact next _ holds
  | refused cause => exact .refused cause

theorem map (first : Settles d sound a x) {f : α → β} (next : ∀ v, sound v → other (f v)) :
    Settles d other a (x >>= fun v => pure (f v)) := by
  rw [← Bool.or_false a]
  exact first.bind fun v holds => .made (next v holds)

theorem error_iff (settles : Settles d sound a x) : (∃ error, x = .error error) ↔ a = true := by
  cases settles <;> simp

theorem ok_iff (settles : Settles d sound a x) : (∃ v, x = .ok v) ↔ a = false := by
  cases settles <;> simp

theorem cause (settles : Settles d sound a x) {error : Error} (failed : x = .error error) :
    Refusal d error := by
  cases settles with
  | made => cases failed
  | refused cause =>
    cases failed
    exact cause

end Settles

def Sql.Whole (e : Sql) : Prop := e.print.complete = true

theorem Template.fill_complete {args : List Printed} {p : List Segment}
    (numbered : ∀ digits, .slot digits ∈ p → ∃ i, index? digits = some i ∧ i < args.length)
    (each : ∀ arg ∈ args, arg.complete = true) : (fill args p).complete = true := by
  induction p with
  | nil => rfl
  | cons segment p ih =>
    have rest := ih fun digits member => numbered digits (List.mem_cons_of_mem _ member)
    cases segment with
    | text c => simp [fill, rest]
    | slot digits =>
      obtain ⟨i, index, bound⟩ := numbered digits List.mem_cons_self
      simp [fill, index, bound, rest, each]

namespace Generation

variable {d : Dialect} {entity : Entity}

theorem template_settles {function : Function} (plain : function.stringMatch? = none) (count : Nat) :
    Settles d (fun text => d.template? function count = some text)
      (d.lacksOffsets && function == .totalOffsetMinutes)
      (orElse (.noTemplate function d) (d.template? function count)) := by
  have known := d.template?_isSome plain count
  cases written : d.template? function count with
  | none =>
    rw [written, Option.isSome_none, Eq.comm, Bool.not_eq_false'] at known
    obtain rfl : function = .totalOffsetMinutes := by simpa using (Bool.and_eq_true_iff.1 known).2
    rw [known]
    exact .refused .offset
  | some text =>
    rw [written, Option.isSome_some, Eq.comm, Bool.not_eq_true'] at known
    rw [known]
    exact .made rfl

mutual
theorem operand_settles {o : Operand} {type : ValueType} (typed : o.HasType entity type) :
    Settles d Sql.Whole (d.lacksOffsets && o.calls .totalOffsetMinutes) (operand d entity o) := by
  match o, typed with
  | .property path, .property resolved =>
    rw [Operand.calls, Bool.and_false, operand, resolved]
    exact .made rfl
  | .literal value, _ =>
    rw [Operand.calls, Bool.and_false]
    exact .made rfl
  | .call function args, .call plain least most accepted =>
    have arity := Signature.acceptsArity_iff.2 ⟨least, most⟩
    rw [Operand.calls, Bool.and_or_distrib_left, operand]
    refine (template_settles plain args.length).bind fun text written => ?_
    refine (operands_settles accepted).map fun es made => ?_
    refine Template.fill_complete (fun digits slot => ?_) ?_
    · rw [Sql.printAll_eq, List.length_map, made.1]
      exact Dialect.template?_slots arity written slot
    · simpa [Sql.printAll_eq, Sql.Whole] using made.2
  | .arithmetic op left right, .arithmetic first second =>
    rw [Operand.calls, Bool.and_or_distrib_left, operand]
    refine (operand_settles first).bind fun l whole => (operand_settles second).map fun r whole' => ?_
    simpa [Sql.Whole, Sql.print] using ⟨whole, whole'⟩
theorem operands_settles {os : List Operand} {params : List Param}
    (typed : Operand.Accepts entity params os) :
    Settles d (fun es => es.length = os.length ∧ ∀ e ∈ es, Sql.Whole e)
      (d.lacksOffsets && Operand.anyCalls .totalOffsetMinutes os) (operands d entity os) := by
  match os, typed with
  | [], _ =>
    rw [Operand.anyCalls, Bool.and_false]
    exact .made (by simp)
  | o :: os, .cons typed _ others =>
    rw [Operand.anyCalls, Bool.and_or_distrib_left, operands]
    refine (operand_settles typed).bind fun e whole => (operands_settles others).map fun es made => ?_
    exact ⟨congrArg (· + 1) made.1, by simpa using ⟨whole, made.2⟩⟩
end

theorem nullTest_settles (operator : Operator) :
    Settles d (fun negated => nullTest? operator = some negated)
      (!(operator == .equal || operator == .notEqual))
      (orElse (.nullOrdered operator) (nullTest? operator)) := by
  cases operator with
  | equal => exact .made rfl
  | notEqual => exact .made rfl
  | _ => exact .refused (.order _)

theorem calls_of_isNull {o : Operand} (null : o.isNull = true) (sought : Function) :
    o.calls sought = false := by
  match o with
  | .literal _ => rfl

theorem comparison_settles {op : Comparison} {left right : Operand} {s t : ValueType}
    (first : left.HasType entity s) (second : right.HasType entity t)
    (proper : (left.isNull && right.isNull) = false) :
    Settles d Sql.Whole
      ((Filter.comparison op.operator left right).ordersNull ||
        d.lacksOffsets && (Filter.comparison op.operator left right).calls .totalOffsetMinutes)
      (comparison d entity op.operator left right) := by
  have tested {tested : Operand} {type : ValueType} (typed : tested.HasType entity type) :
      Settles d Sql.Whole
        (!(op.operator == .equal || op.operator == .notEqual) ||
          d.lacksOffsets && tested.calls .totalOffsetMinutes)
        (comparison.nullTest d entity op.operator tested) := by
    refine (nullTest_settles op.operator).bind fun negated _ =>
      (operand_settles typed).map fun e whole => ?_
    simpa [Sql.Whole, Sql.print] using whole
  unfold comparison
  cases isNull : left.isNull <;> cases isNull' : right.isNull
  · obtain ⟨symbol, known⟩ : ∃ symbol, comparison? op.operator = some symbol := by
      cases op <;> exact ⟨_, rfl⟩
    simp only [Filter.ordersNull, Filter.calls, isNull, isNull', known, orElse, ok_bind, Bool.or_false,
      Bool.false_and, Bool.false_or, Bool.and_or_distrib_left]
    refine (operand_settles first).bind fun l whole => (operand_settles second).map fun r whole' => ?_
    simpa [Sql.Whole, Sql.print] using ⟨whole, whole'⟩
  · simpa [Filter.ordersNull, Filter.calls, isNull, isNull', calls_of_isNull isNull'] using tested first
  · simpa [Filter.ordersNull, Filter.calls, isNull, isNull', calls_of_isNull isNull] using tested second
  · simp [isNull, isNull'] at proper

theorem filter_settles {f : Filter} (typed : f.WellTyped entity) :
    Settles d Sql.Whole (f.ordersNull || d.lacksOffsets && f.calls .totalOffsetMinutes)
      (filter d entity f) := by
  induction typed with
  | comparison first second proper _ => exact comparison_settles first second proper
  | @stringMatch kind target pattern typed =>
    obtain ⟨text, known⟩ : ∃ text, Like.pattern? kind.operator pattern = some text := by
      cases kind <;> exact ⟨_, rfl⟩
    simp only [filter, known, orElse, ok_bind]
    refine (operand_settles typed).map fun e whole => ?_
    simpa [Sql.Whole, Sql.print, Printed.ofParam] using whole
  | @logical op left right _ _ ih jh =>
    obtain ⟨symbol, known⟩ : ∃ symbol, connective? op.operator = some symbol := by
      cases op <;> exact ⟨_, rfl⟩
    have flags (a b c e f : Bool) : ((a || b) || c && (e || f)) = ((a || c && e) || (b || c && f)) := by
      cases a <;> cases b <;> cases c <;> cases e <;> cases f <;> rfl
    simp only [filter, known, orElse, ok_bind, Filter.ordersNull, Filter.calls, flags]
    refine ih.bind fun l whole => jh.map fun r whole' => ?_
    simpa [Sql.Whole, Sql.print] using ⟨whole, whole'⟩
  | not _ ih =>
    refine ih.map fun e whole => ?_
    simpa [Sql.Whole, Sql.print] using whole
  | constant =>
    rw [Filter.ordersNull, Filter.calls, Bool.and_false]
    exact .made rfl

theorem filterSql_settles {f : Filter} (typed : f.WellTyped entity) :
    Settles d (fun _ => True) (f.ordersNull || d.lacksOffsets && f.calls .totalOffsetMinutes)
      (filterSql d entity f) := by
  rw [← Bool.or_false (_ || _)]
  refine (filter_settles typed).bind fun e whole => ?_
  have complete : e.print.complete = true := whole
  simp only [Writer.render, if_pos complete]
  exact .made trivial

theorem columns_settles {ι : Type} {make : ι → Except Error Sql} {flag : ι → Bool} {items : List ι}
    (each : ∀ item ∈ items, Settles d Sql.Whole (flag item) (make item)) (w : Writer) :
    Settles d (fun _ => True) (items.any flag) (columns w (items.map make)) := by
  induction items generalizing w with
  | nil => exact .made trivial
  | cons item items ih =>
    rw [List.forall_mem_cons] at each
    rw [List.any_cons, List.map_cons, columns]
    refine each.1.bind fun e whole => ?_
    have complete : e.print.complete = true := whole
    simp only [Writer.column, if_pos complete]
    exact (ih each.2 _).map fun _ _ => trivial

theorem computeSql_settles {items : List ComputeItem} (typed : ComputeItem.WellTyped entity items) :
    Settles d (fun _ => True)
      (d.lacksOffsets && items.any fun item => item.operand.calls .totalOffsetMinutes)
      (computeSql d entity items) := by
  rw [List.and_any_distrib_left]
  refine (columns_settles (fun item member => ?_) {}).map fun _ _ => trivial
  refine (operand_settles (typed.typed item member)).map fun e whole => ?_
  simpa [Sql.Whole, Sql.print] using whole

theorem orderBySql_settles {items : List OrderItem} (typed : OrderItem.WellTyped entity items) :
    Settles d (fun _ => True)
      (d.lacksOffsets && items.any fun item => item.operand.calls .totalOffsetMinutes)
      (orderBySql d entity items) := by
  rw [List.and_any_distrib_left]
  refine (columns_settles (fun item member => ?_) {}).map fun _ _ => trivial
  obtain ⟨type, typed⟩ := (typed item member).1
  refine (operand_settles typed).map fun e whole => ?_
  simpa [Sql.Whole, Sql.print] using whole

end Generation

theorem Refusal.unsupported {d : Dialect} {error : Error} (refusal : Refusal d error) :
    error.kind = .unsupported ∧ error ≠ .unsupported .badTemplate := by
  cases refusal <;> exact ⟨rfl, nofun⟩

/-- Generation fails if and only if the model is faulty, and always with one of the two reasons: the
operation is unsupported, and never because of a malformed template. -/
structure RefusedIff {α : Type} (d : Dialect) (faulty : Prop) (result : Except Error α) : Prop where
  faulty_iff : (∃ error, result = .error error) ↔ faulty
  unsupported : ∀ error, result = .error error →
    error.kind = .unsupported ∧ error ≠ .unsupported .badTemplate
  reason : ∀ error, result = .error error → Refusal d error

theorem Settles.refusedIff {α : Type} {d : Dialect} {sound : α → Prop} {flag : Bool}
    {x : Except Error α} (settles : Settles d sound flag x) {faulty : Prop}
    (same : flag = true ↔ faulty) : RefusedIff d faulty x where
  faulty_iff := settles.error_iff.trans same
  unsupported _ failed := (settles.cause failed).unsupported
  reason _ failed := settles.cause failed

namespace Compiler

def Accepts (d : Dialect) (source : String) (entity : Entity) (p : Pool) : Clause → Prop
  | .filter => ∃ out, (filter d source entity p).1 = .ok out
  | .compute => ∃ out, (compute d source entity p).1 = .ok out
  | .orderBy => ∃ out, (orderBy d source entity p).1 = .ok out

variable {source : String} {entity : Entity} {p : Pool}

theorem Accepts.mono {d e : Dialect} (more : e.lacksOffsets = true → d.lacksOffsets = true)
    {clause : Clause} (accepted : Accepts d source entity p clause) :
    Accepts e source entity p clause := by
  have weaker {b : Bool} (free : (d.lacksOffsets && b) = false) : (e.lacksOffsets && b) = false := by
    cases lacks : e.lacksOffsets with
    | false => rfl
    | true => rwa [more lacks] at free
  cases clause with
  | filter =>
    obtain ⟨out, made⟩ := accepted
    obtain ⟨ts, lexed, t, root, parsed, f, typed, generated⟩ := filter_eq_ok.1 made
    have wellTyped := (filter_sound typed).2
    have free := (Generation.filterSql_settles wellTyped).ok_iff.1 ⟨out, generated⟩
    rw [Bool.or_eq_false_iff] at free
    obtain ⟨other, remade⟩ := (Generation.filterSql_settles wellTyped).ok_iff.2
      (Bool.or_eq_false_iff.2 ⟨free.1, weaker free.2⟩)
    exact ⟨other, filter_eq_ok.2 ⟨ts, lexed, t, root, parsed, f, typed, remade⟩⟩
  | compute =>
    obtain ⟨out, made⟩ := accepted
    obtain ⟨ts, lexed, t, list, parsed, items, typed, generated⟩ := compute_eq_ok.1 made
    obtain ⟨es, -, computed⟩ := bind_eq_ok.1 typed
    have wellTyped := (compute_sound .nil computed).2
    have free := (Generation.computeSql_settles wellTyped).ok_iff.1 ⟨out, generated⟩
    obtain ⟨other, remade⟩ := (Generation.computeSql_settles wellTyped).ok_iff.2 (weaker free)
    exact ⟨other, compute_eq_ok.2 ⟨ts, lexed, t, list, parsed, items, typed, remade⟩⟩
  | orderBy =>
    obtain ⟨out, made⟩ := accepted
    obtain ⟨ts, lexed, t, list, parsed, items, typed, generated⟩ := orderBy_eq_ok.1 made
    obtain ⟨es, -, ordered⟩ := bind_eq_ok.1 typed
    have wellTyped := (orderBy_sound ordered).2
    have free := (Generation.orderBySql_settles wellTyped).ok_iff.1 ⟨out, generated⟩
    obtain ⟨other, remade⟩ := (Generation.orderBySql_settles wellTyped).ok_iff.2 (weaker free)
    exact ⟨other, orderBy_eq_ok.2 ⟨ts, lexed, t, list, parsed, items, typed, remade⟩⟩

end Compiler

/-- A typed model has no SQL only if it puts null in order, or asks a dialect for the offset of a
date-time that the dialect cannot give. So there are no more than two kinds of dialects, and one of
them accepts all that the other accepts. -/
theorem generation_refuses_two_faults (entity : Entity) :
    (∀ d e f, Typing.filter entity e = .ok f →
      RefusedIff d
        (f.ordersNull = true ∨ (d = .sqlite ∨ d = .mysql) ∧ f.calls .totalOffsetMinutes = true)
        (Generation.filterSql d entity f)) ∧
    (∀ d es items, Typing.compute entity [] es = .ok items →
      RefusedIff d
        ((d = .sqlite ∨ d = .mysql) ∧ ∃ item ∈ items, item.operand.calls .totalOffsetMinutes = true)
        (Generation.computeSql d entity items)) ∧
    (∀ d es items, Typing.orderBy entity 1 es = .ok items →
      RefusedIff d
        ((d = .sqlite ∨ d = .mysql) ∧ ∃ item ∈ items, item.operand.calls .totalOffsetMinutes = true)
        (Generation.orderBySql d entity items)) ∧
    ∀ source p clause,
      (Compiler.Accepts .postgres source entity p clause ↔
        Compiler.Accepts .sqlServer source entity p clause) ∧
      (Compiler.Accepts .sqlite source entity p clause ↔
        Compiler.Accepts .mysql source entity p clause) ∧
      (Compiler.Accepts .sqlite source entity p clause →
        ∀ d, Compiler.Accepts d source entity p clause) := by
  refine ⟨fun d e f typed => ?_, fun d es items typed => ?_, fun d es items typed => ?_,
    fun source p clause => ⟨⟨?_, ?_⟩, ⟨?_, ?_⟩, ?_⟩⟩
  · refine (Generation.filterSql_settles (filter_sound typed).2).refusedIff ?_
    rw [Bool.or_eq_true, Bool.and_eq_true, Dialect.lacksOffsets_iff]
  · refine (Generation.computeSql_settles (compute_sound .nil typed).2).refusedIff ?_
    rw [Bool.and_eq_true, Dialect.lacksOffsets_iff, List.any_eq_true]
  · refine (Generation.orderBySql_settles (orderBy_sound typed).2).refusedIff ?_
    rw [Bool.and_eq_true, Dialect.lacksOffsets_iff, List.any_eq_true]
  · exact .mono (by decide)
  · exact .mono (by decide)
  · exact .mono (by decide)
  · exact .mono (by decide)
  · exact fun accepted d => accepted.mono fun _ => rfl

def meeting : Entity :=
  { name := "meeting", members := [("Starts", .primitive ⟨"starts", .dateTime, true, none⟩)] }

def startOffset : Typing.TreeExpr :=
  .call (some "totaloffsetminutes".toList) [.path (some "Starts".toList)]

def startOffsetModel : Operand := .call .totalOffsetMinutes [.property "Starts"]

theorem generation_refuses_start_offset :
    Typing.filter meeting (.binary (.comparison .lt) (.literal .null (some "null".toList))
      (.path (some "Starts".toList))) =
        .ok (.comparison .lessThan (.literal .null) (.property "Starts")) ∧
    (∃ error, Generation.filterSql .postgres meeting
      (.comparison .lessThan (.literal .null) (.property "Starts")) = .error error) ∧
    Typing.compute meeting [] [.named startOffset (some "Shift".toList)] =
      .ok [⟨startOffsetModel, "Shift", .number⟩] ∧
    (∃ error, Generation.computeSql .mysql meeting [⟨startOffsetModel, "Shift", .number⟩] =
      .error error) ∧
    Typing.orderBy meeting 1 [.ordered startOffset true] = .ok [⟨startOffsetModel, true⟩] ∧
    (¬ ∃ error, Generation.orderBySql .sqlServer meeting [⟨startOffsetModel, true⟩] = .error error) ∧
    Compiler.Accepts .sqlite "null ne Starts" meeting .default .filter ∧
    ∀ d, Compiler.Accepts d "null ne Starts" meeting .default .filter := by
  have filtered : Typing.filter meeting (.binary (.comparison .lt)
      (.literal .null (some "null".toList)) (.path (some "Starts".toList))) =
        .ok (.comparison .lessThan (.literal .null) (.property "Starts")) := by rfl
  have computed : Typing.compute meeting [] [.named startOffset (some "Shift".toList)] =
      .ok [⟨startOffsetModel, "Shift", .number⟩] := by rfl
  have ordered : Typing.orderBy meeting 1 [.ordered startOffset true] =
      .ok [⟨startOffsetModel, true⟩] := by rfl
  have accepted : Compiler.Accepts .sqlite "null ne Starts" meeting .default .filter :=
    ⟨⟨"starts IS NOT NULL", []⟩, by decide +kernel⟩
  obtain ⟨filters, computes, orders, accepts⟩ := generation_refuses_two_faults meeting
  refine ⟨filtered, (filters _ _ _ filtered).faulty_iff.2 (.inl rfl), computed, ?_, ordered, ?_,
    accepted, (accepts _ _ _).2.2 accepted⟩
  · exact (computes _ _ _ computed).faulty_iff.2 ⟨.inr rfl, _, List.mem_singleton_self _, rfl⟩
  · rw [(orders _ _ _ ordered).faulty_iff]
    rintro ⟨lacks, -⟩
    exact absurd lacks (by decide)

end ClauseSql
