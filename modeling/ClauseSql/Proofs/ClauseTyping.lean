import ClauseSql.Proofs.TypingExactness
import Mathlib.Data.List.Forall2

/-! The clauses of each kind that can be typed. A filter is a condition. The values of a compute
clause have types and new names of their own; the values of an order clause have types and vary from
row to row or from one moment to the next. -/
namespace ClauseSql

open Outcome Typing

inductive Varies : TreeExpr → Prop
  | path {text : Option (List Char)} : Varies (.path text)
  | now {name : List Char} {args : List TreeExpr} : Function.ofName? name = some .now →
      Varies (.call (some name) args)
  | argument {name : Option (List Char)} {args : List TreeExpr} {arg : TreeExpr} : arg ∈ args →
      Varies arg → Varies (.call name args)
  | left {op : BinaryOperator} {a b : TreeExpr} : Varies a → Varies (.binary op a b)
  | right {op : BinaryOperator} {a b : TreeExpr} : Varies b → Varies (.binary op a b)

abbrev NamedValue := TreeExpr × List Char

def NamedValue.expr (item : NamedValue) : TreeExpr := .named item.1 (some item.2)

def NamedValue.name (item : NamedValue) : String := String.ofList item.2

/-- Items that may follow others with the given names. -/
structure ComputeFrom (entity : Entity) (taken : List String) (items : List NamedValue) : Prop where
  typed : ∀ item ∈ items, ∃ type, HasType entity item.1 type
  fresh : ∀ item ∈ items, entity.property? item.name = none
  distinct : (taken ++ items.map NamedValue.name).Nodup

def IsComputeClause (entity : Entity) (es : List TreeExpr) : Prop :=
  ∃ items, es = items.map NamedValue.expr ∧ ComputeFrom entity [] items

def IsOrderClause (entity : Entity) (es : List TreeExpr) : Prop :=
  ∃ items : List (TreeExpr × Bool), es = items.map (fun item => .ordered item.1 item.2) ∧
    ∀ item ∈ items, (∃ type, HasType entity item.1 type) ∧ Varies item.1

structure ComputeItem.WellTyped (entity : Entity) (items : List ComputeItem) : Prop where
  typed : ∀ item ∈ items, item.operand.HasType entity item.type
  fresh : ∀ item ∈ items, entity.property? item.name = none
  distinct : (items.map ComputeItem.name).Nodup

def OrderItem.WellTyped (entity : Entity) (items : List OrderItem) : Prop :=
  ∀ item ∈ items, (∃ type, item.operand.HasType entity type) ∧ item.operand.isLiteral = false

section Items

variable {entity : Entity}

mutual
theorem isLiteral_iff {e : TreeExpr} {o : Operand} {type : ValueType}
    (typed : operand entity e = .ok (o, type)) : o.isLiteral = false ↔ Varies e := by
  match e with
  | .path text =>
    obtain ⟨_, _, _, _, equal⟩ := operand_path.1 typed
    cases equal
    exact ⟨fun _ => .path, fun _ => rfl⟩
  | .literal kind text =>
    obtain ⟨_, _, _, _, equal⟩ := operand_literal.1 typed
    cases equal
    exact ⟨nofun, nofun⟩
  | .call text args =>
    obtain ⟨name, rfl, function, known, _, _, values, checked, equal⟩ := operand_call.1 typed
    cases equal
    have ih := areLiterals_iff checked
    simp only [Operand.isLiteral, Bool.and_eq_false_iff, ih, bne_eq_false_iff_eq]
    constructor
    · rintro (rfl | ⟨arg, member, varies⟩)
      · exact .now known
      · exact .argument member varies
    · intro varies
      cases varies with
      | now clock => exact .inl (Option.some.inj (known.symm.trans clock))
      | argument member varies => exact .inr ⟨_, member, varies⟩
  | .binary (.arithmetic op) left right =>
    obtain ⟨a, _, first, b, _, second, _, _, equal⟩ := operand_arithmetic.1 typed
    cases equal
    simp only [Operand.isLiteral, Bool.and_eq_false_iff, isLiteral_iff first, isLiteral_iff second]
    constructor
    · rintro (varies | varies)
      · exact .left varies
      · exact .right varies
    · intro varies
      cases varies with
      | left varies => exact .inl varies
      | right varies => exact .inr varies
  | .binary (.comparison _) _ _ => cases isValue_of_operand typed
  | .binary (.connective _) _ _ => cases isValue_of_operand typed
  | .not _ => cases isValue_of_operand typed
  | .named _ _ => cases isValue_of_operand typed
  | .ordered _ _ => cases isValue_of_operand typed
  | .broken _ => cases isValue_of_operand typed
  | .brokenCall _ _ => cases isValue_of_operand typed
theorem areLiterals_iff {function : Function} {index : Nat} {args : List TreeExpr}
    {values : List Operand} (checked : arguments entity function index args = .ok values) :
    Operand.areLiterals values = false ↔ ∃ arg ∈ args, Varies arg := by
  match args with
  | [] =>
    cases checked
    simp [Operand.areLiterals]
  | arg :: args =>
    obtain ⟨value, type, typed, _, values, more, rfl⟩ := arguments_cons.1 checked
    simp only [Operand.areLiterals, Bool.and_eq_false_iff, isLiteral_iff typed, areLiterals_iff more,
      List.mem_cons, exists_eq_or_imp]
end

theorem ComputeItem.WellTyped.nil : WellTyped entity [] := ⟨by simp, by simp, by simp⟩

theorem ComputeItem.WellTyped.push {done : List ComputeItem} (before : WellTyped entity done)
    {item : ComputeItem} (typed : item.operand.HasType entity item.type)
    (fresh : entity.property? item.name = none) (new : ∀ other ∈ done, other.name ≠ item.name) :
    WellTyped entity (done ++ [item]) where
  typed := by
    intro other member
    rcases List.mem_append.1 member with old | last
    · exact before.typed other old
    · rw [List.mem_singleton.1 last]
      exact typed
  fresh := by
    intro other member
    rcases List.mem_append.1 member with old | last
    · exact before.fresh other old
    · rw [List.mem_singleton.1 last]
      exact fresh
  distinct := by
    rw [List.map_append, List.nodup_append]
    refine ⟨before.distinct, by simp, ?_⟩
    intro name member other single
    obtain ⟨old, kept, rfl⟩ := List.mem_map.1 member
    rw [List.mem_singleton.1 single]
    exact new old kept

theorem compute_sound {done all : List ComputeItem} {es : List TreeExpr}
    (before : ComputeItem.WellTyped entity done) (typed : compute entity done es = .ok all) :
    (∃ items, es = items.map NamedValue.expr ∧
      ComputeFrom entity (done.map ComputeItem.name) items) ∧ ComputeItem.WellTyped entity all := by
  induction es generalizing done with
  | nil =>
    cases typed
    exact ⟨⟨[], rfl, by simp, by simp, by simpa using before.distinct⟩, before⟩
  | cons e es ih =>
    obtain ⟨value, text, rfl⟩ := named_of_compute typed
    obtain ⟨name, rfl, new, fresh, a, type, read, more⟩ := compute_named.1 typed
    have sound := operand_sound read
    obtain ⟨⟨items, rfl, rest⟩, wellTyped⟩ := ih (before.push sound.2 fresh new) more
    refine ⟨⟨(value, name) :: items, rfl, ?_, ?_, ?_⟩, wellTyped⟩
    · rw [List.forall_mem_cons]
      exact ⟨⟨type, sound.1⟩, rest.typed⟩
    · rw [List.forall_mem_cons]
      exact ⟨fresh, rest.fresh⟩
    · simpa [NamedValue.name] using rest.distinct

theorem compute_complete {done : List ComputeItem} {items : List NamedValue}
    (clause : ComputeFrom entity (done.map ComputeItem.name) items)
    (lexed : LexedAll (items.map NamedValue.expr)) :
    ∃ all, compute entity done (items.map NamedValue.expr) = .ok all := by
  induction items generalizing done with
  | nil => exact ⟨done, rfl⟩
  | cons item items ih =>
    obtain ⟨value, name⟩ := item
    obtain ⟨typed, fresh, distinct⟩ := clause
    rw [List.forall_mem_cons] at typed fresh
    obtain ⟨type, typed₁⟩ := typed.1
    cases lexed with
    | cons first others =>
      cases first with
      | named first _ =>
        obtain ⟨a, read⟩ := operand_complete typed₁ first
        have new : ∀ other ∈ done, other.name ≠ String.ofList name := by
          intro other member same
          rw [List.nodup_append] at distinct
          exact distinct.2.2 _ (List.mem_map_of_mem member) _ List.mem_cons_self same
        let item : ComputeItem := ⟨a, String.ofList name, type⟩
        have rest : ComputeFrom entity ((done ++ [item]).map ComputeItem.name) items :=
          ⟨typed.2, fresh.2, by simpa [item, NamedValue.name] using distinct⟩
        obtain ⟨all, more⟩ := ih rest others
        exact ⟨all, compute_named.2 ⟨name, rfl, new, fresh.1, a, type, read, more⟩⟩

theorem orderBy_sound {number : Nat} {all : List OrderItem} {es : List TreeExpr}
    (typed : orderBy entity number es = .ok all) :
    IsOrderClause entity es ∧ OrderItem.WellTyped entity all := by
  induction es generalizing number all with
  | nil =>
    cases typed
    exact ⟨⟨[], rfl, by simp⟩, by simp [OrderItem.WellTyped]⟩
  | cons e es ih =>
    obtain ⟨value, descending, rfl⟩ := ordered_of_orderBy typed
    obtain ⟨a, type, read, varies, others, more, rfl⟩ := orderBy_ordered.1 typed
    have sound := operand_sound read
    obtain ⟨⟨items, rfl, rest⟩, wellTyped⟩ := ih more
    refine ⟨⟨(value, descending) :: items, rfl, ?_⟩, ?_⟩
    · rw [List.forall_mem_cons]
      exact ⟨⟨⟨type, sound.1⟩, (isLiteral_iff read).1 varies⟩, rest⟩
    · unfold OrderItem.WellTyped
      rw [List.forall_mem_cons]
      exact ⟨⟨⟨type, sound.2⟩, varies⟩, wellTyped⟩

theorem orderBy_complete {number : Nat} {es : List TreeExpr} (clause : IsOrderClause entity es)
    (lexed : LexedAll es) : ∃ all, orderBy entity number es = .ok all := by
  obtain ⟨items, rfl, each⟩ := clause
  induction items generalizing number with
  | nil => exact ⟨[], rfl⟩
  | cons item items ih =>
    rw [List.forall_mem_cons] at each
    obtain ⟨⟨⟨type, typed⟩, varies⟩, rest⟩ := each
    cases lexed with
    | cons first others =>
      cases first with
      | ordered first =>
        obtain ⟨a, read⟩ := operand_complete typed first
        obtain ⟨all, more⟩ := ih rest others
        exact ⟨_, orderBy_ordered.2
          ⟨a, type, read, (isLiteral_iff read).2 varies, all, more, rfl⟩⟩

end Items

theorem tokens_lexed {source : String} {ts : List Token} (lexed : Token.tokenize source = .ok ts)
    (generation : UInt32) :
    List.Forall₂ (lexedTexts.spans ⟨source.toList, generation⟩ ⟨source.toList, generation⟩).Tokens
      ts ts := by
  rw [List.forall₂_same]
  intro t member
  refine ⟨rfl, ?_, fun _ => rfl⟩
  have text := Lexing.tokenize_slice lexed t member
  cases kind : t.kind with
  | literal k =>
    intro cs slice
    obtain rfl : t.lexeme = cs := Option.some.inj (text.symm.trans slice)
    exact Lexing.tokenize_meaningful lexed member kind
  | _ => trivial

/-- Typing accepts exactly the clauses that are well typed, and gives well-typed models. -/
theorem typing_accepts_well_typed {source : String} {ts : List Token}
    (lexed : Token.tokenize source = .ok ts) {p : Pool} (reachable : p.Reachable) (q : Pool)
    (entity : Entity) :
    (∀ t root, (p.parseFilter source ts).1 = .ok (t, root) →
      ((∃ f, (q.typeFilter entity t root).1 = .ok f) ↔ IsCondition entity (t.view root)) ∧
      ∀ f, (q.typeFilter entity t root).1 = .ok f → f.WellTyped entity) ∧
    (∀ t list, (p.parseCompute source ts).1 = .ok (t, list) →
      ((∃ items, (q.typeCompute entity t list).1 = .ok items) ↔
        ∃ es, t.viewList? list = some es ∧ IsComputeClause entity es) ∧
      ∀ items, (q.typeCompute entity t list).1 = .ok items → ComputeItem.WellTyped entity items) ∧
    (∀ t list, (p.parseOrderBy source ts).1 = .ok (t, list) →
      ((∃ items, (q.typeOrderBy entity t list).1 = .ok items) ↔
        ∃ es, t.viewList? list = some es ∧ IsOrderClause entity es) ∧
      ∀ items, (q.typeOrderBy entity t list).1 = .ok items → OrderItem.WellTyped entity items) := by
  have tokens := tokens_lexed lexed p.generation
  refine ⟨fun t root parsed => ⟨⟨?_, ?_⟩, ?_⟩, fun t list parsed => ⟨⟨?_, ?_⟩, ?_⟩,
    fun t list parsed => ⟨⟨?_, ?_⟩, ?_⟩⟩
  · rintro ⟨f, typed⟩
    exact (filter_sound typed).1
  · intro condition
    exact filter_complete condition (Pool.parseFilter_alike tokens reachable reachable parsed parsed)
  · intro f typed
    exact (filter_sound typed).2
  · rintro ⟨items, typed⟩
    obtain ⟨es, viewed, computed⟩ := bind_eq_ok.1 typed
    exact ⟨es, readable_eq_ok.1 viewed, (compute_sound .nil computed).1⟩
  · rintro ⟨es, viewed, items, rfl, clause⟩
    have lexed := Pool.parseCompute_alike tokens reachable reachable parsed parsed
    rw [viewed] at lexed
    cases lexed with
    | some lexed =>
      obtain ⟨all, computed⟩ := @compute_complete entity [] items clause lexed
      exact ⟨all, bind_eq_ok.2 ⟨_, readable_eq_ok.2 viewed, computed⟩⟩
  · intro items typed
    obtain ⟨es, _, computed⟩ := bind_eq_ok.1 typed
    exact (compute_sound .nil computed).2
  · rintro ⟨items, typed⟩
    obtain ⟨es, viewed, ordered⟩ := bind_eq_ok.1 typed
    exact ⟨es, readable_eq_ok.1 viewed, (orderBy_sound ordered).1⟩
  · rintro ⟨es, viewed, clause⟩
    have lexed := Pool.parseOrderBy_alike tokens reachable reachable parsed parsed
    rw [viewed] at lexed
    cases lexed with
    | some lexed =>
      obtain ⟨all, ordered⟩ := orderBy_complete clause lexed
      exact ⟨all, bind_eq_ok.2 ⟨_, readable_eq_ok.2 viewed, ordered⟩⟩
  · intro items typed
    obtain ⟨es, _, ordered⟩ := bind_eq_ok.1 typed
    exact (orderBy_sound ordered).2

def birthday : Entity :=
  { name := "birthday", members := [("Born", .primitive ⟨"born", .date, true, none⟩)] }

theorem typing_accepts_quoted_birthday : ∃ ts t root,
    Token.tokenize "Born lt '2000-01-01'" = .ok ts ∧ Pool.default.Reachable ∧
    (Pool.default.parseFilter "Born lt '2000-01-01'" ts).1 = .ok (t, root) ∧
    t.view root = .binary (.comparison .lt) (.path (some "Born".toList))
      (.literal .string (some "'2000-01-01'".toList)) ∧
    IsCondition birthday (t.view root) := by
  have lexed : Token.tokenize "Born lt '2000-01-01'" = .ok
      [⟨.identifier, 0, "Born".toList⟩, ⟨.operator (.comparison .lt), 5, "lt".toList⟩,
        ⟨.literal .string, 8, "'2000-01-01'".toList⟩, ⟨.eof, 20, []⟩] := by decide +kernel
  let tree : Tree := ⟨"Born lt '2000-01-01'".toList, 1,
    ⟨#[.path ⟨0, 4⟩, .literal .string ⟨8, 20⟩, .binary (.comparison .lt) ⟨0, 1⟩ ⟨1, 1⟩], #[], 32⟩⟩
  have parsed : (Pool.default.parseFilter "Born lt '2000-01-01'"
      [⟨.identifier, 0, "Born".toList⟩, ⟨.operator (.comparison .lt), 5, "lt".toList⟩,
        ⟨.literal .string, 8, "'2000-01-01'".toList⟩, ⟨.eof, 20, []⟩]).1 =
      .ok (tree, ⟨2, 1⟩) := by decide +kernel
  have reachable : Pool.default.Reachable := .ofCapacity Pool.defaultCapacity
  have accepts := ((typing_accepts_well_typed lexed reachable .default birthday).1 _ _ parsed).1
  have typed : (Pool.default.typeFilter birthday tree ⟨2, 1⟩).1 =
      .ok (.comparison .lessThan (.property "Born") (.literal (.date ⟨2000, 1, 1⟩))) := by rfl
  exact ⟨_, tree, ⟨2, 1⟩, lexed, reachable, parsed, by rfl, accepts.1 ⟨_, typed⟩⟩

end ClauseSql
