import Mathlib.Data.List.Forall2
import ClauseSql.Proofs.Grammar
import ClauseSql.Proofs.TypingRules

/-! What typing keeps of an expression. An operand has the shape of its expression. A condition has it but
for two cases: a property that stands alone is compared with true, and a string match that is compared
with a truth value is that match or its negation. Heights are therefore kept, or grow by one, and the
properties are the same in the same order. -/
namespace ClauseSql

open Outcome Typing

mutual
/-- The operand has the shape of the expression, and the names of its properties. -/
inductive Operand.Models : TreeExpr → Operand → Prop
  | property {path : List Char} : Operand.Models (.path (some path)) (.property (String.ofList path))
  | literal {kind : LiteralKind} {text : List Char} {value : Value} :
      Operand.Models (.literal kind (some text)) (.literal value)
  | call {name : List Char} {function : Function} {args : List TreeExpr} {values : List Operand} :
      Operand.ModelsAll args values → Operand.Models (.call (some name) args) (.call function values)
  | arithmetic {op : Arithmetic} {left right : TreeExpr} {a b : Operand} : Operand.Models left a →
      Operand.Models right b → Operand.Models (.binary (.arithmetic op) left right) (.arithmetic op a b)
inductive Operand.ModelsAll : List TreeExpr → List Operand → Prop
  | nil : Operand.ModelsAll [] []
  | cons {arg : TreeExpr} {args : List TreeExpr} {value : Operand} {values : List Operand} :
      Operand.Models arg value → Operand.ModelsAll args values →
      Operand.ModelsAll (arg :: args) (value :: values)
end

inductive Filter.Models : TreeExpr → Filter → Prop
  | connective {op : Connective} {left right : TreeExpr} {a b : Filter} : Filter.Models left a →
      Filter.Models right b → Filter.Models (.binary (.connective op) left right) (.logical op.operator a b)
  | not {inner : TreeExpr} {a : Filter} : Filter.Models inner a → Filter.Models (.not inner) (.not a)
  | boolean {text : List Char} {value : Bool} :
      Filter.Models (.literal .boolean (some text)) (.constant value)
  | property {path : List Char} : Filter.Models (.path (some path))
      (.comparison .equal (.property (String.ofList path)) (.literal (.bool true)))
  | stringMatch {name pattern : List Char} {operator : Operator} {target : TreeExpr} {a : Operand}
      {text : String} : Operand.Models target a →
      Filter.Models (.call (some name) [target, .literal .string (some pattern)])
        (.stringMatch operator a text)
  | comparison {op : Comparison} {left right : TreeExpr} {a b : Operand} : Operand.Models left a →
      Operand.Models right b →
      Filter.Models (.binary (.comparison op) left right) (.comparison op.operator a b)
  | matchEquated {op : Comparison} {call : TreeExpr} {text : List Char} {a b : Filter} :
      Filter.Models call a → b = a ∨ b = .not a →
      Filter.Models (.binary (.comparison op) call (.literal .boolean (some text))) b
  | equatedMatch {op : Comparison} {call : TreeExpr} {text : List Char} {a b : Filter} :
      Filter.Models call a → b = a ∨ b = .not a →
      Filter.Models (.binary (.comparison op) (.literal .boolean (some text)) call) b

mutual
def Operand.height : Operand → Nat
  | .property _ => 1
  | .literal _ => 1
  | .call _ args => Operand.heightOfAll args + 1
  | .arithmetic _ left right => max left.height right.height + 1
def Operand.heightOfAll : List Operand → Nat
  | [] => 0
  | operand :: operands => max operand.height (Operand.heightOfAll operands)
end

def Filter.height : Filter → Nat
  | .comparison _ left right => max left.height right.height + 1
  | .stringMatch _ target _ => target.height + 1
  | .logical _ left right => max left.height right.height + 1
  | .not operand => operand.height + 1
  | .constant _ => 1

mutual
theorem Operand.Models.height_eq {e : TreeExpr} {o : Operand} :
    Operand.Models e o → o.height = e.height
  | .property => rfl
  | .literal => rfl
  | .call args => by simp only [Operand.height, Expr.height, args.height_eq]
  | .arithmetic left right => by
    simp only [Operand.height, Expr.height, left.height_eq, right.height_eq]
theorem Operand.ModelsAll.height_eq {args : List TreeExpr} {values : List Operand} :
    Operand.ModelsAll args values → Operand.heightOfAll values = Expr.heightOfAll args
  | .nil => rfl
  | .cons first others => by
    simp only [Operand.heightOfAll, Expr.heightOfAll, first.height_eq, others.height_eq]
end

theorem Filter.Models.bare_eq {e : TreeExpr} {f : Filter} (models : Filter.Models e f) : e.bare = e := by
  cases models <;> rfl

theorem Filter.Models.height_le {e : TreeExpr} {f : Filter} (models : Filter.Models e f) :
    f.height ≤ e.height + 1 := by
  induction models with
  | connective _ _ ih jh =>
    simp only [Filter.height, Expr.height]
    omega
  | not _ ih =>
    simp only [Filter.height, Expr.height]
    omega
  | boolean => exact Nat.le_succ 1
  | property => exact Nat.le_refl 2
  | stringMatch target =>
    simp only [Filter.height, Expr.height, Expr.heightOfAll, target.height_eq]
    omega
  | comparison left right =>
    simp only [Filter.height, Expr.height, left.height_eq, right.height_eq]
    omega
  | matchEquated _ choice ih | equatedMatch _ choice ih =>
    obtain rfl | rfl := choice
    · simp only [Expr.height]
      omega
    · simp only [Filter.height, Expr.height]
      omega

mutual
def Expr.paths {σ β : Type} : Expr σ β → List σ
  | .literal _ _ => []
  | .path text => [text]
  | .not operand => operand.paths
  | .binary _ left right => left.paths ++ right.paths
  | .call _ args => Expr.pathsOfAll args
  | .named value _ => value.paths
  | .ordered value _ => value.paths
  | .broken _ => []
  | .brokenCall _ _ => []
def Expr.pathsOfAll {σ β : Type} : List (Expr σ β) → List σ
  | [] => []
  | e :: es => e.paths ++ Expr.pathsOfAll es
end

mutual
theorem Operand.Models.paths_eq {e : TreeExpr} {o : Operand} :
    Operand.Models e o → o.paths.map (fun path => some path.toList) = e.paths
  | .property => by simp [Operand.paths, Expr.paths]
  | .literal => rfl
  | .call args => by simp only [Operand.paths, Expr.paths, args.paths_eq]
  | .arithmetic left right => by
    simp only [Operand.paths, Expr.paths, List.map_append, left.paths_eq, right.paths_eq]
theorem Operand.ModelsAll.paths_eq {args : List TreeExpr} {values : List Operand} :
    Operand.ModelsAll args values →
      (Operand.pathsOfAll values).map (fun path => some path.toList) = Expr.pathsOfAll args
  | .nil => rfl
  | .cons first others => by
    simp only [Operand.pathsOfAll, Expr.pathsOfAll, List.map_append, first.paths_eq, others.paths_eq]
end

theorem Filter.Models.paths_eq {e : TreeExpr} {f : Filter} (models : Filter.Models e f) :
    f.paths.map (fun path => some path.toList) = e.paths := by
  induction models with
  | connective _ _ ih jh => simp only [Filter.paths, Expr.paths, List.map_append, ih, jh]
  | not _ ih => exact ih
  | boolean => rfl
  | property => simp [Filter.paths, Operand.paths, Expr.paths]
  | stringMatch target => simp [Filter.paths, Expr.paths, Expr.pathsOfAll, target.paths_eq]
  | comparison left right =>
    simp only [Filter.paths, Expr.paths, List.map_append, left.paths_eq, right.paths_eq]
  | matchEquated _ choice ih | equatedMatch _ choice ih =>
    obtain rfl | rfl := choice
    · simpa [Expr.paths] using ih
    · simpa [Filter.paths, Expr.paths] using ih

section Operands

variable {entity : Entity}

mutual
theorem operand_models {e : TreeExpr} {o : Operand} {type : ValueType}
    (typed : operand entity e = .ok (o, type)) : Operand.Models e o := by
  match e with
  | .path text =>
    obtain ⟨path, rfl, _, _, equal⟩ := operand_path.1 typed
    cases equal
    exact .property
  | .literal kind text =>
    obtain ⟨cs, rfl, value, _, equal⟩ := operand_literal.1 typed
    cases equal
    exact .literal
  | .call text args =>
    obtain ⟨name, rfl, function, _, _, _, values, checked, equal⟩ := operand_call.1 typed
    cases equal
    exact .call (arguments_model checked)
  | .binary (.arithmetic op) left right =>
    obtain ⟨a, _, first, b, _, second, _, _, equal⟩ := operand_arithmetic.1 typed
    cases equal
    exact .arithmetic (operand_models first) (operand_models second)
  | .binary (.comparison _) _ _ => cases isValue_of_operand typed
  | .binary (.connective _) _ _ => cases isValue_of_operand typed
  | .not _ => cases isValue_of_operand typed
  | .named _ _ => cases isValue_of_operand typed
  | .ordered _ _ => cases isValue_of_operand typed
  | .broken _ => cases isValue_of_operand typed
  | .brokenCall _ _ => cases isValue_of_operand typed
theorem arguments_model {function : Function} {index : Nat} {args : List TreeExpr}
    {values : List Operand} (checked : arguments entity function index args = .ok values) :
    Operand.ModelsAll args values := by
  match args with
  | [] =>
    cases checked
    exact .nil
  | arg :: args =>
    obtain ⟨value, type, typed, _, values, more, rfl⟩ := arguments_cons.1 checked
    exact .cons (operand_models typed) (arguments_model more)
end

theorem Operand.Models.coerce {e : TreeExpr} {value found : Operand} {type other given : ValueType}
    (models : Operand.Models e value) (done : coerce value type other = .ok (found, given)) :
    Operand.Models e found := by
  obtain ⟨rfl, -⟩ | ⟨text, v, rfl, rfl, -⟩ := coerce_cases done
  · exact models
  · cases models
    exact .literal

end Operands

section Conditions

variable {entity : Entity}

theorem stringMatch_models {e : TreeExpr} {function : Function} {kind : StringMatch}
    {args : List TreeExpr} {f : Filter} (called : MatchCall e function kind args)
    (typed : stringMatch entity function kind args = .ok f) : Filter.Models e f := by
  obtain ⟨name, rfl, -⟩ := called
  obtain ⟨target, pattern, text, value, rfl, read, -, rfl⟩ := stringMatch_eq_ok.1 typed
  exact .stringMatch (operand_models read)

theorem fold?_models {call other : TreeExpr} {op : Comparison} {f : Filter}
    (folded : fold? entity call op other = .ok (some f)) :
    ∃ text a, other = .literal .boolean (some text) ∧ Filter.Models call a ∧ (f = a ∨ f = .not a) := by
  obtain ⟨function, kind, args, text, negated, matched, called, rfl, -, typed, rfl⟩ :=
    fold?_some.1 folded
  refine ⟨text, matched, rfl, stringMatch_models called typed, ?_⟩
  cases negated
  · exact .inl rfl
  · exact .inr rfl

theorem comparison_models {op : Comparison} {left right : TreeExpr} {f : Filter}
    (typed : comparison entity op left right = .ok f) :
    Filter.Models (.binary (.comparison op) left right) f := by
  obtain folded | folded | ⟨a, s, b, t, first, second, -, a', s', before, b', t', behind, -, rfl⟩ :=
    comparison_eq_ok.1 typed
  · obtain ⟨text, a, rfl, models, choice⟩ := fold?_models folded
    exact .matchEquated models choice
  · obtain ⟨text, a, rfl, models, choice⟩ := fold?_models folded
    exact .equatedMatch models choice
  · exact .comparison ((operand_models first).coerce before) ((operand_models second).coerce behind)

theorem filter_models {e : TreeExpr} {f : Filter} (typed : filter entity e = .ok f) :
    Filter.Models e f := by
  match e with
  | .binary (.connective op) left right =>
    obtain ⟨a, first, b, second, rfl⟩ := filter_connective.1 typed
    exact .connective (filter_models first) (filter_models second)
  | .binary (.comparison op) left right => exact comparison_models typed
  | .not inner =>
    obtain ⟨a, read, rfl⟩ := filter_not.1 typed
    exact .not (filter_models read)
  | .call _ _ =>
    obtain ⟨function, kind, called, typed⟩ := filter_call.1 typed
    exact stringMatch_models called typed
  | .path _ =>
    obtain ⟨path, rfl, _, _, _, rfl⟩ := filter_path.1 typed
    exact .property
  | .literal .boolean _ =>
    obtain ⟨text, rfl, rfl⟩ := filter_boolean.1 typed
    exact .boolean
  | .literal .string _ => cases mayBeCondition_of_filter typed
  | .literal .number _ => cases mayBeCondition_of_filter typed
  | .literal .date _ => cases mayBeCondition_of_filter typed
  | .literal .dateTime _ => cases mayBeCondition_of_filter typed
  | .literal .null _ => cases mayBeCondition_of_filter typed
  | .binary (.arithmetic _) _ _ => cases mayBeCondition_of_filter typed
  | .named _ _ => cases mayBeCondition_of_filter typed
  | .ordered _ _ => cases mayBeCondition_of_filter typed
  | .broken _ => cases mayBeCondition_of_filter typed
  | .brokenCall _ _ => cases mayBeCondition_of_filter typed

end Conditions

section Items

variable {entity : Entity}

theorem exists_of_forall₂ {α β : Type} {R : α → β → Prop} {as : List α} {bs : List β}
    (related : List.Forall₂ R as bs) : ∀ b ∈ bs, ∃ a ∈ as, R a b := by
  induction related with
  | nil => simp
  | cons first _ ih =>
    rw [List.forall_mem_cons]
    refine ⟨⟨_, List.mem_cons_self, first⟩, fun b member => ?_⟩
    obtain ⟨a, found, holds⟩ := ih b member
    exact ⟨a, List.mem_cons_of_mem _ found, holds⟩

def ComputeItem.Models (entity : Entity) (e : TreeExpr) (item : ComputeItem) : Prop :=
  ∃ value name, e = .named value (some name) ∧ item.name = String.ofList name ∧
    Typing.operand entity value = .ok (item.operand, item.type)

def OrderItem.Models (entity : Entity) (e : TreeExpr) (item : OrderItem) : Prop :=
  ∃ value type, e = .ordered value item.descending ∧
    Typing.operand entity value = .ok (item.operand, type)

theorem compute_models {es : List TreeExpr} {done all : List ComputeItem}
    (typed : compute entity done es = .ok all) :
    ∃ new, all = done ++ new ∧ List.Forall₂ (ComputeItem.Models entity) es new := by
  induction es generalizing done with
  | nil =>
    cases typed
    exact ⟨[], by simp, .nil⟩
  | cons e es ih =>
    obtain ⟨value, text, rfl⟩ := named_of_compute typed
    obtain ⟨name, rfl, -, -, a, type, read, more⟩ := compute_named.1 typed
    obtain ⟨new, rfl, others⟩ := ih more
    exact ⟨⟨a, String.ofList name, type⟩ :: new, by simp, .cons ⟨value, name, rfl, rfl, read⟩ others⟩

theorem orderBy_models {es : List TreeExpr} {number : Nat} {all : List OrderItem}
    (typed : orderBy entity number es = .ok all) : List.Forall₂ (OrderItem.Models entity) es all := by
  induction es generalizing number all with
  | nil =>
    cases typed
    exact .nil
  | cons e es ih =>
    obtain ⟨value, descending, rfl⟩ := ordered_of_orderBy typed
    obtain ⟨a, type, read, -, others, more, rfl⟩ := orderBy_ordered.1 typed
    exact .cons ⟨value, type, rfl, read⟩ (ih more)

end Items

end ClauseSql
