import ClauseSql.Proofs.ArgumentOrder
import ClauseSql.Proofs.ClauseTyping
import ClauseSql.Proofs.SourceItems

/-! Where null is bound. No parameter of a function and no operand of an operation takes null, so a null
literal is either a whole operand or none of its parts. In a comparison it becomes a test for null, which
binds nothing, and an order clause refuses it, so only a computed column can bind it. -/
namespace ClauseSql

open Outcome Typing

namespace Operand

variable {entity : Entity}

theorem isNull_of_type {o : Operand} {type : ValueType} (typed : o.HasType entity type)
    (value : type ≠ .null) : o.isNull = false := by
  cases typed with
  | @literal v =>
    cases v with
    | null => exact absurd rfl value
    | _ => rfl
  | _ => rfl

theorem isNull_of_isLiteral {o : Operand} (varies : o.isLiteral = false) : o.isNull = false := by
  cases o with
  | literal => cases varies
  | _ => rfl

mutual
theorem null_not_mem_bound {o : Operand} {type : ValueType} (typed : o.HasType entity type)
    (proper : o.isNull = false) (d : Dialect) : Value.null ∉ o.bound d := by
  match o, typed with
  | .property path, _ => exact List.not_mem_nil
  | .literal value, _ =>
    intro member
    rw [← List.mem_singleton.1 member] at proper
    cases proper
  | .call function args, .call _ _ _ accepted =>
    intro member
    obtain ⟨i, -, inside⟩ := List.mem_flatMap.1 member
    rw [List.getD_eq_getElem?_getD] at inside
    cases found : (boundLists d args)[i]? with
    | none => simp [found] at inside
    | some values =>
      rw [found] at inside
      exact null_not_mem_boundLists accepted d values (List.mem_of_getElem? found) inside
  | .arithmetic op left right, .arithmetic first second =>
    rw [bound, List.mem_append, not_or]
    exact ⟨null_not_mem_bound first (isNull_of_type first (by decide)) d,
      null_not_mem_bound second (isNull_of_type second (by decide)) d⟩
theorem null_not_mem_boundLists {params : List Param} {os : List Operand}
    (accepted : Accepts entity params os) (d : Dialect) :
    ∀ values ∈ boundLists d os, Value.null ∉ values := by
  match os, accepted with
  | [], _ => exact List.forall_mem_nil _
  | o :: os, .cons typed fits others =>
    have value : o.isNull = false := isNull_of_type typed fun null => by
      rw [null, Param.accepts_null] at fits
      cases fits
    rw [boundLists, List.forall_mem_cons]
    exact ⟨null_not_mem_bound typed value d, null_not_mem_boundLists others d⟩
end

theorem count_null_bound {o : Operand} {type : ValueType} (typed : o.HasType entity type) (d : Dialect) :
    (o.bound d).count .null = if o.isNull then 1 else 0 := by
  cases null : o.isNull with
  | false => exact List.count_eq_zero.2 (null_not_mem_bound typed null d)
  | true =>
    unfold isNull at null
    split at null
    · rfl
    · cases null

end Operand

theorem Filter.null_not_mem_bound {entity : Entity} {f : Filter} (typed : f.WellTyped entity)
    (d : Dialect) : Value.null ∉ f.bound d := by
  induction typed with
  | @comparison _ left right _ _ first second proper _ =>
    rw [bound]
    split
    · next null =>
      -- The other side is not null too.
      rw [null, Bool.true_and] at proper
      exact Operand.null_not_mem_bound second proper d
    · next here =>
      split
      · exact Operand.null_not_mem_bound first (Bool.eq_false_iff.2 here) d
      · next there =>
        rw [List.mem_append, not_or]
        exact ⟨Operand.null_not_mem_bound first (Bool.eq_false_iff.2 here) d,
          Operand.null_not_mem_bound second (Bool.eq_false_iff.2 there) d⟩
  | stringMatch target =>
    rw [bound, List.mem_append, not_or]
    refine ⟨Operand.null_not_mem_bound target (Operand.isNull_of_type target (by decide)) d, ?_⟩
    simp [patternValue]
  | logical _ _ ih jh =>
    rw [bound, List.mem_append, not_or]
    exact ⟨ih, jh⟩
  | not _ ih => exact ih
  | constant => exact List.not_mem_nil

namespace Generation

variable {d : Dialect} {entity : Entity}

theorem columns_args {α : Type} {items : List α} {make : α → Except Error Sql} {value : α → Operand}
    (each : ∀ item e, make item = .ok e → e.print.complete = true → e.print.args = (value item).bound d)
    {texts : List String} {args : List Value}
    (written : columns {} (items.map make) = .ok (texts, args)) :
    args = items.flatMap fun item => (value item).bound d := by
  obtain ⟨made, related, -, rfl⟩ := columns_items written
  clear written
  induction related with
  | nil => rfl
  | cons first _ ih => rw [List.flatMap_cons, List.flatMap_cons, ih, each _ _ first.1 first.2]

theorem args_before_text {o : Operand} {value : Sql} {s : String}
    (generated : operand d entity o = .ok value)
    (complete : (value.print ++ Printed.ofText s).complete = true) :
    (value.print ++ Printed.ofText s).args = o.bound d := by
  rw [Printed.complete_append, Bool.and_eq_true] at complete
  rw [Printed.args_append_ofText, operand_args generated complete.1]

theorem orderBySql_args {items : List OrderItem} {out : OrderBySql}
    (made : orderBySql d entity items = .ok out) :
    out.args = items.flatMap fun item => item.operand.bound d := by
  obtain ⟨⟨texts, args⟩, written, equal⟩ := bind_eq_ok.1 made
  cases equal
  refine columns_args (fun item e sorted complete => ?_) written
  obtain ⟨value, generated, equal⟩ := bind_eq_ok.1 sorted
  cases equal
  exact args_before_text generated complete

theorem computeSql_args {items : List ComputeItem} {out : ComputeSql}
    (made : computeSql d entity items = .ok out) :
    out.args = items.flatMap fun item => item.operand.bound d := by
  obtain ⟨⟨texts, args⟩, written, equal⟩ := bind_eq_ok.1 made
  cases equal
  refine columns_args (fun item e computed complete => ?_) written
  obtain ⟨value, generated, equal⟩ := bind_eq_ok.1 computed
  cases equal
  exact args_before_text generated complete

end Generation

theorem OrderItem.null_not_mem_bound {entity : Entity} {items : List OrderItem}
    (typed : OrderItem.WellTyped entity items) (d : Dialect) :
    Value.null ∉ items.flatMap fun item => item.operand.bound d := by
  intro member
  obtain ⟨item, listed, inside⟩ := List.mem_flatMap.1 member
  obtain ⟨⟨type, typed⟩, proper⟩ := typed item listed
  exact Operand.null_not_mem_bound typed (Operand.isNull_of_isLiteral proper) d inside

theorem ComputeItem.count_null_bound {entity : Entity} {items : List ComputeItem}
    (typed : ∀ item ∈ items, item.operand.HasType entity item.type) (d : Dialect) :
    (items.flatMap fun item => item.operand.bound d).count .null = items.countP (·.operand.isNull) := by
  induction items with
  | nil => rfl
  | cons item items ih =>
    rw [List.forall_mem_cons] at typed
    rw [List.flatMap_cons, List.count_append, List.countP_cons, ih typed.2,
      Operand.count_null_bound typed.1 d, Nat.add_comm]

namespace Token

def unbracketed (ts : List Token) : List TokenKind :=
  (ts.map kind).filter fun kind => kind != .openParen && kind != .closeParen

/-- Apart from brackets, the item is null and its name. -/
def writesNull (item : List Token) : Bool :=
  unbracketed item == [.literal .null, .asWord, .identifier]

@[simp] theorem unbracketed_append (ts us : List Token) :
    unbracketed (ts ++ us) = unbracketed ts ++ unbracketed us := by
  simp [unbracketed]

theorem unbracketed_cons {t : Token} (opening : t.kind ≠ .openParen) (closing : t.kind ≠ .closeParen)
    (ts : List Token) : unbracketed (t :: ts) = t.kind :: unbracketed ts := by
  simp [unbracketed, opening, closing]

end Token

namespace Grammar

theorem Spells.unbracketed_eq_null {ts : List Token} {e : ParsedExpr} (spelled : Spells ts e) :
    Token.unbracketed ts = [.literal .null] ↔ ∃ span, e = .literal .null span := by
  induction size : ts.length using Nat.strong_induction_on generalizing ts with
  | _ n ih =>
    subst size
    cases spelled with
    | literal kind => simp [Token.unbracketed, kind]
    | path kind =>
      obtain kind | kind := kind
      all_goals simp [Token.unbracketed, kind]
    | not kind phrase => simp [Token.unbracketed, kind]
    | binary kind left right =>
      rw [Token.unbracketed_append, Token.unbracketed_cons (by simp [kind]) (by simp [kind]), kind]
      simp [List.append_eq_singleton_iff]
    | call calls opens closes args => simp [Token.unbracketed, calls]
    | @group opening closing inner _ opens closes phrase =>
      have less : inner.length < (opening :: (inner ++ [closing])).length := by
        simp only [List.length_cons, List.length_append]
        omega
      rw [← ih _ less phrase rfl]
      simp [Token.unbracketed, opens, closes]

end Grammar

theorem Expr.isNull_read {text? : Span → Option (List Char)} {e : ParsedExpr} :
    IsNull (e.read text?) ↔ ∃ span, e = .literal .null span := by
  cases e with
  | broken reason | brokenCall _ reason => exact reason.elim
  | _ => simp [IsNull, read]

section Items

variable {entity : Entity} {text? : Span → Option (List Char)}

theorem Grammar.SpellsItem.writesNull_eq {ts : List Token} {e : ParsedExpr} {item : ComputeItem}
    (spelled : SpellsItem .compute ts e) (models : ComputeItem.Models entity (e.read text?) item) :
    Token.writesNull ts = item.operand.isNull := by
  obtain ⟨value, text, same, -, typed⟩ := models
  cases spelled with
  | @named ts joined name e phrase joins names =>
    rw [Expr.read, Expr.named.injEq] at same
    rw [← same.1] at typed
    have tail : Token.unbracketed [joined, name] = [.asWord, .identifier] := by
      simp [Token.unbracketed, joins, names]
    rw [Bool.eq_iff_iff, operand_isNull typed, Expr.isNull_read, ← phrase.unbracketed_eq_null,
      Token.writesNull, beq_iff_eq, Token.unbracketed_append, tail, List.append_eq_cons_iff]
    simp

theorem ComputeItem.countP_isNull {bodies : List (List Token)} {es : List ParsedExpr}
    {items : List ComputeItem} (spelled : List.Forall₂ (Grammar.SpellsItem .compute) bodies es)
    (models : List.Forall₂ (fun e item => ComputeItem.Models entity (e.read text?) item) es items) :
    items.countP (·.operand.isNull) = bodies.countP Token.writesNull := by
  induction spelled generalizing items with
  | nil =>
    cases models
    rfl
  | cons first _ ih =>
    cases models with
    | cons next others => rw [List.countP_cons, List.countP_cons, ih others, first.writesNull_eq next]

end Items

/-- Conditions and order clauses bind no null. A compute clause binds null once for each item that is
nothing but null. -/
theorem conditions_bind_no_null (d : Dialect) (source : String) (entity : Entity) (p : Pool) :
    (∀ out, (Compiler.filter d source entity p).1 = .ok out → Value.null ∉ out.args) ∧
    (∀ out, (Compiler.orderBy d source entity p).1 = .ok out → Value.null ∉ out.args) ∧
    (∀ out, (Compiler.compute d source entity p).1 = .ok out → p.Reachable →
      ∃ ts, Token.tokenize source = .ok ts ∧
        (ts.length ≤ 2 ^ 32 → out.args.count .null = (Token.items ts).countP Token.writesNull)) := by
  refine ⟨fun out done => ?_, fun out done => ?_, fun out done reachable => ?_⟩
  · obtain ⟨f, modelled, generated⟩ := Compiler.generate_eq_ok.1 done
    obtain ⟨_, _, -, -, typed⟩ := Compiler.filterModel_items modelled
    rw [Generation.filterSql_args generated]
    exact Filter.null_not_mem_bound (filter_sound typed).2 d
  · obtain ⟨items, modelled, generated⟩ := Compiler.generate_eq_ok.1 done
    obtain ⟨_, _, -, -, typed⟩ := Compiler.orderByModel_items modelled
    rw [Generation.orderBySql_args generated]
    exact OrderItem.null_not_mem_bound (orderBy_sound typed).2 d
  · obtain ⟨items, modelled, generated⟩ := Compiler.generate_eq_ok.1 done
    obtain ⟨_, _, -, -, typed⟩ := Compiler.computeModel_items modelled
    obtain ⟨ts, es, lexed, -, spelled, models⟩ := Compiler.computeModel_parsed reachable modelled
    refine ⟨ts, lexed, fun few => ?_⟩
    rw [Generation.computeSql_args generated,
      ComputeItem.count_null_bound (compute_sound .nil typed).2.typed d,
      ComputeItem.countP_isNull spelled (models few)]

theorem conditions_bind_no_null_nameless :
    let entity : Entity :=
      { name := "Product"
        members := [("Name", .primitive ⟨"name", .text, true, none⟩),
          ("Price", .primitive ⟨"price", .integer, true, none⟩)] }
    (∃ out, (Compiler.filter .postgres "null ne Name and Price gt 3" entity .default).1 = .ok out ∧
      Value.null ∉ out.args) ∧
    (∃ out, (Compiler.orderBy .postgres "Price add 2 desc" entity .default).1 = .ok out ∧
      Value.null ∉ out.args) ∧
    ∃ out, (Compiler.compute .postgres "((null)) as Nothing,Price add 2 as More,null as None" entity
        .default).1 = .ok out ∧ out.args.count .null = 2 := by
  intro entity
  let ts : List Token :=
    [⟨.openParen, 0, ['(']⟩, ⟨.openParen, 1, ['(']⟩, ⟨.literal .null, 2, "null".toList⟩,
      ⟨.closeParen, 6, [')']⟩, ⟨.closeParen, 7, [')']⟩, ⟨.asWord, 9, "as".toList⟩,
      ⟨.identifier, 12, "Nothing".toList⟩, ⟨.comma, 19, [',']⟩, ⟨.identifier, 20, "Price".toList⟩,
      ⟨.operator (.arithmetic .add), 26, "add".toList⟩, ⟨.literal .number, 30, ['2']⟩,
      ⟨.asWord, 32, "as".toList⟩, ⟨.identifier, 35, "More".toList⟩, ⟨.comma, 39, [',']⟩,
      ⟨.literal .null, 40, "null".toList⟩, ⟨.asWord, 45, "as".toList⟩,
      ⟨.identifier, 48, "None".toList⟩, ⟨.eof, 52, []⟩]
  have lexed : Token.tokenize "((null)) as Nothing,Price add 2 as More,null as None" = .ok ts := by
    decide +kernel
  have filter : (Compiler.filter .postgres "null ne Name and Price gt 3" entity .default).1 =
      .ok ⟨"(name IS NOT NULL) AND (price > ?)", [.integer 3]⟩ := by decide +kernel
  have order : (Compiler.orderBy .postgres "Price add 2 desc" entity .default).1 =
      .ok ⟨["(price + ?) DESC"], [.integer 2]⟩ := by decide +kernel
  have compute : (Compiler.compute .postgres "((null)) as Nothing,Price add 2 as More,null as None" entity
      .default).1 =
      .ok ⟨[⟨"? AS \"Nothing\"", "Nothing"⟩, ⟨"(price + ?) AS \"More\"", "More"⟩,
        ⟨"? AS \"None\"", "None"⟩], [.null, .integer 2, .null]⟩ := by decide +kernel
  have pool : Pool.default.Reachable := .ofCapacity _
  refine ⟨⟨_, filter, ?_⟩, ⟨_, order, ?_⟩, ⟨_, compute, ?_⟩⟩
  · exact (conditions_bind_no_null .postgres _ entity .default).1 _ filter
  · exact (conditions_bind_no_null .postgres _ entity .default).2.1 _ order
  · obtain ⟨us, same, counted⟩ := (conditions_bind_no_null .postgres _ entity .default).2.2 _ compute pool
    cases lexed.symm.trans same
    exact (counted (by decide)).trans (by decide)

/-- Of as many items as there are handles no null is bound. -/
theorem full_compute_binds_no_null :
    let entity : Entity := { name := "Item", members := [] }
    let source := repeated "null as A" (2 ^ 32 - 1)
    ∃ ts, Token.tokenize source = .ok ts ∧ (Token.items ts).countP Token.writesNull = 2 ^ 32 ∧
      ∃ out, (Compiler.compute .sqlite source entity .default).1 = .ok out ∧ out.args.count .null = 0 := by
  intro entity source
  let value : TreeExpr := .named (.literal .null (some "null".toList)) (some ['A'])
  have single : Itemized .compute "null as A" [value] :=
    ⟨[⟨.literal .null, 0, "null".toList⟩, ⟨.asWord, 5, "as".toList⟩, ⟨.identifier, 8, ['A']⟩, ⟨.eof, 9, []⟩],
      [.named (.literal .null ⟨0, 4⟩) ⟨8, 9⟩], by decide +kernel, by with_unfolding_all rfl, rfl⟩
  have many := single.repeated (by decide) (2 ^ 32 - 1)
  have model := many.computeModel_of_full (by rw [List.length_replicate]; rfl) entity .default
  obtain ⟨ts, es, lexed, parsed, spelled, -⟩ := Compiler.computeModel_parsed (.ofCapacity _) model
  refine ⟨ts, lexed, ?_, ⟨[], []⟩, by rw [Compiler.compute, Compiler.generate, model]; rfl, rfl⟩
  obtain ⟨us, fs, again, reparsed, read⟩ := many
  cases lexed.symm.trans again
  cases parsed.symm.trans reparsed
  let null : ComputeItem := ⟨.literal .null, "A", .null⟩
  have same : ComputeItem.Models entity value null :=
    ⟨.literal .null (some "null".toList), ['A'], rfl, rfl, rfl⟩
  have models := forall₂_replicate same (2 ^ 32 - 1 + 1)
  rw [← read, Expr.readAll_eq_map, List.forall₂_map_left_iff] at models
  rw [← ComputeItem.countP_isNull spelled models, List.countP_replicate]
  rfl

end ClauseSql
