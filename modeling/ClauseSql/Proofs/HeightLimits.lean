import ClauseSql.Proofs.ListClauses
import ClauseSql.Proofs.ModelShapes
import ClauseSql.Proofs.ParserCalls
import ClauseSql.Proofs.StoredParts
import ClauseSql.Proofs.UserStrings

/-! How high anything is that comes of a clause. What the parser accepts is no higher than its limit, what
is read from a tree is no higher than what was parsed, and an operand is as high as its expression. Only a
condition may be higher by one, where a property that stands alone is compared with true. In breadth there
is no limit: calls have any number of arguments and clauses any number of items. -/
namespace ClauseSql

open Typing

theorem Expr.Fragment.bare_height_le {text? : Span → Option (List Char)} {es : List ParsedExpr}
    {value : TreeExpr} (fragment : Expr.Fragment text? es value) {limit : Nat} (positive : 1 ≤ limit)
    (low : ∀ e ∈ es, e.bare.height ≤ limit) : value.bare.height ≤ limit := by
  obtain rfl | ⟨e, member, part, inside, rfl⟩ := fragment
  · exact positive
  · calc (part.read text?).bare.height = part.bare.height := by rw [bare_read, height_read]
      _ ≤ e.bare.height := inside.bare_height_le
      _ ≤ limit := low e member

theorem Pool.items?_low {p : Pool} (reachable : p.Reachable) {clause : Clause} {source : String}
    {ts : List Token} {items : List TreeExpr} (seen : p.items? clause source ts = .ok (some items)) :
    ∀ item ∈ items, item.bare.height ≤ Parser.nestingLimit := by
  intro item member
  obtain ⟨es, parsed, fragments⟩ := items?_fragments reachable source seen
  exact (fragments item member).bare_height_le Parser.leaf_low (Parser.clause_low parsed)

namespace Compiler

variable {source : String} {entity : Entity} {p : Pool} (reachable : p.Reachable)
include reachable

theorem filterModel_height_le {f : Filter} (done : (filterModel source entity p).1 = .ok f) :
    f.height ≤ Parser.nestingLimit + 1 := by
  obtain ⟨ts, e, -, seen, typed⟩ := filterModel_items done
  have models := filter_models typed
  have low := Pool.items?_low reachable seen e List.mem_cons_self
  rw [models.bare_eq] at low
  exact models.height_le.trans (Nat.succ_le_succ low)

theorem computeModel_height_le {made : List ComputeItem}
    (done : (computeModel source entity p).1 = .ok made) :
    ∀ item ∈ made, item.operand.height ≤ Parser.nestingLimit := by
  intro item member
  obtain ⟨ts, es, -, seen, typed⟩ := computeModel_items done
  obtain ⟨_, rfl, models⟩ := compute_models typed
  obtain ⟨_, found, value, name, rfl, -, read⟩ := exists_of_forall₂ models item member
  rw [(operand_models read).height_eq]
  exact Pool.items?_low reachable seen _ found

theorem orderByModel_height_le {made : List OrderItem}
    (done : (orderByModel source entity p).1 = .ok made) :
    ∀ item ∈ made, item.operand.height ≤ Parser.nestingLimit := by
  intro item member
  obtain ⟨ts, es, -, seen, typed⟩ := orderByModel_items done
  obtain ⟨_, found, value, type, rfl, read⟩ := exists_of_forall₂ (orderBy_models typed) item member
  rw [(operand_models read).height_eq]
  exact Pool.items?_low reachable seen _ found

end Compiler

namespace RoundTrip

open Grammar

theorem itemized_of_reparses {clause : Clause} {value : TreeExpr} {values : List TreeExpr}
    {text : List Char} {texts : List (List Char)} {bound : Nat}
    (first : Reparses (DerivesItem clause) bound value text)
    (others : List.Forall₂ (Reparses (DerivesItem clause) bound) values texts)
    (single : clause = .filter → values = []) (shallow : 2 * bound ≤ Parser.nestingLimit)
    (low : ∀ item ∈ value :: values, item.bare.height ≤ Parser.nestingLimit) :
    Itemized clause (String.ofList (Expr.listText (text :: texts))) (value :: values) := by
  obtain ⟨ts, es, n, series, deep, length, reads, lexes⟩ := reparses_series first others 0
  have read := reads _ (.whole _)
  have within : WithinAll n es := by
    refine ⟨by omega, fun e member => ?_⟩
    have item : e.read (covered (Expr.listText (text :: texts))) ∈ value :: values := by
      rw [← read, Expr.readAll_eq_map]
      exact List.mem_map_of_mem member
    simpa [Expr.bare_read, Expr.height_read] using low _ item
  have one : clause = .filter → es.length = 1 := fun filter => by rw [length, single filter]; rfl
  refine ⟨_, es, (lexes [] .nil).tokenize, (clause_follows series one rfl).reads within, ?_⟩
  rw [String.toList_ofList, read]

end RoundTrip

theorem Expr.length_le_sizeOfAll {σ β : Type} (es : List (Expr σ β)) : es.length ≤ Expr.sizeOfAll es := by
  induction es with
  | nil => exact Nat.le_refl 0
  | cons e es ih =>
    have positive := e.size_pos
    simp only [List.length_cons, sizeOfAll]
    omega

open Grammar RoundTrip in
theorem calls_of_any_arity (n : Nat) :
    ∃ source name args, Itemized .filter source [.call name args] ∧ args.length = n := by
  have args := forall₂_replicate ((reparses_quote []).argument (Nat.le_refl 1)) n
  have call := (reparses_call (Lexing.rescans_functionName .concat) args).argument (Nat.le_refl 2)
  have item := call.imp (fun _ _ _ => DerivesItem.condition) (Nat.le_refl 2)
  refine ⟨_, _, _, itemized_of_reparses item .nil (fun _ => rfl) (by decide) ?_, List.length_replicate⟩
  rw [List.forall_mem_singleton]
  refine Nat.succ_le_succ (Expr.heightOfAll_le_iff.2 fun e member => ?_)
  rw [List.eq_of_mem_replicate member]
  exact Nat.le_of_ble_eq_true rfl

open Grammar RoundTrip in
theorem items_of_any_number {clause : Clause} (list : clause ≠ .filter) (n : Nat) :
    ∃ source values, Itemized clause source values ∧ values.length = n + 1 := by
  have long {value : TreeExpr} {text : List Char} (item : Reparses (DerivesItem clause) 1 value text)
      (low : value.bare.height = 1) :
      ∃ source values, Itemized clause source values ∧ values.length = n + 1 := by
    refine ⟨_, _, itemized_of_reparses item (forall₂_replicate item n) (fun same => absurd same list)
      (by decide) fun other member => ?_, congrArg (· + 1) List.length_replicate⟩
    rw [← List.replicate_succ] at member
    rw [List.eq_of_mem_replicate member, low]
    exact Parser.leaf_low
  have blank := (reparses_quote []).argument (Nat.le_refl 1)
  cases clause with
  | filter => exact absurd rfl list
  | compute =>
    -- Any name will do; a direction is one that is known to be read again.
    exact long (blank.named fun _ parts => Lexing.rescans_direction false parts) rfl
  | orderBy => exact long (blank.ordered false) rfl

/-- Whatever source is accepted, no part of an item is higher than 128, and no more than 128 calls of the
rule for expressions are active at once; with a smaller limit than that many, the same call would be
refused. What any tree of the source holds is no higher, operands that are made from it are no higher
either, and conditions at most by one. The number of nodes, of arguments and of items has no bound. -/
theorem accepted_clauses_are_low :
    (∀ (clause : Clause) (source : String) (ts : List Token) (es : List ParsedExpr),
      Token.tokenize source = .ok ts → Parser.clause clause ts = .ok es →
      (∀ e ∈ es, ∀ part : ParsedExpr, part.Part e.bare → part.height ≤ 128) ∧
      Parser.activeCalls clause ts ≤ 128 ∧
      (∀ c ∈ Parser.clauseCalls clause ts, ∀ limit,
        c.Answered (Parser.nested limit) ↔ Parser.deepest 128 c ≤ limit) ∧
      ∀ p : Pool, p.Reachable → ∀ items, p.items? clause source ts = .ok (some items) →
        ∀ item ∈ items, item.bare.height ≤ 128) ∧
    (∀ (source : String) (entity : Entity) (p : Pool), p.Reachable →
      (∀ f, (Compiler.filterModel source entity p).1 = .ok f → f.height ≤ 129) ∧
      (∀ made, (Compiler.computeModel source entity p).1 = .ok made →
        ∀ item ∈ made, item.operand.height ≤ 128) ∧
      ∀ made, (Compiler.orderByModel source entity p).1 = .ok made →
        ∀ item ∈ made, item.operand.height ≤ 128) ∧
    ∀ n, (∃ source name args, Itemized .filter source [.call name args] ∧ args.length = n ∧
        n < Expr.size (.call name args)) ∧
      ∀ clause, clause ≠ .filter → ∃ source values, Itemized clause source values ∧
        values.length = n + 1 ∧ n < Expr.sizeOfAll values := by
  refine ⟨fun clause source ts es _ parsed => ⟨?_, Parser.activeCalls_le parsed, ?_, ?_⟩,
    fun source entity p reachable => ⟨?_, ?_, ?_⟩, fun n => ⟨?_, ?_⟩⟩
  · intro e member part inside
    exact inside.height_le.trans (Parser.clause_low parsed e member)
  · intro c made limit
    exact Parser.answered_iff_deepest_le (Parser.clause_answered parsed c made) limit
  · intro p reachable items seen
    exact Pool.items?_low reachable seen
  · intro f done
    exact Compiler.filterModel_height_le reachable done
  · intro made done
    exact Compiler.computeModel_height_le reachable done
  · intro made done
    exact Compiler.orderByModel_height_le reachable done
  · obtain ⟨source, name, args, itemized, length⟩ := calls_of_any_arity n
    refine ⟨source, name, args, itemized, length, ?_⟩
    rw [← length]
    exact Nat.lt_succ_of_le (Expr.length_le_sizeOfAll args)
  · intro clause list
    obtain ⟨source, values, itemized, length⟩ := items_of_any_number list n
    refine ⟨source, values, itemized, length, ?_⟩
    rw [← Nat.succ_le_iff, Nat.succ_eq_add_one, ← length]
    exact Expr.length_le_sizeOfAll values

theorem accepted_clauses_are_low_hidden :
    let entity : Entity :=
      { name := "Item", members := [("Hidden", .primitive ⟨"hidden", .boolean, true, none⟩)] }
    let ts : List Token :=
      [⟨.not, 0, "not".toList⟩, ⟨.openParen, 4, ['(']⟩, ⟨.not, 5, "not".toList⟩,
        ⟨.identifier, 9, "Hidden".toList⟩, ⟨.closeParen, 15, [')']⟩, ⟨.eof, 16, []⟩]
    let e : ParsedExpr := .not (.not (.path ⟨9, 15⟩))
    let f : Filter := .not (.not (.comparison .equal (.property "Hidden") (.literal (.bool true))))
    Token.tokenize "not (not Hidden)" = .ok ts ∧ Parser.clause .filter ts = .ok [e] ∧
      e.height = 3 ∧ e.height ≤ 128 ∧
      Parser.activeCalls .filter ts = 4 ∧ Parser.activeCalls .filter ts ≤ 128 ∧
      (Compiler.filterModel "not (not Hidden)" entity .default).1 = .ok f ∧
      f.height = 4 ∧ f.height ≤ 129 := by
  intro entity ts e f
  have lexed : Token.tokenize "not (not Hidden)" = .ok ts := by decide +kernel
  have parsed : Parser.clause .filter ts = .ok [e] := by with_unfolding_all rfl
  have typed : (Compiler.filterModel "not (not Hidden)" entity .default).1 = .ok f := by
    rw [Compiler.filterModel, Compiler.model, lexed]
    with_unfolding_all rfl
  have low := accepted_clauses_are_low.1 .filter _ ts [e] lexed parsed
  have model := accepted_clauses_are_low.2.1 "not (not Hidden)" entity .default (.ofCapacity _)
  refine ⟨lexed, parsed, rfl, ?_, by decide +kernel, low.2.1, typed, rfl, model.1 f typed⟩
  exact low.1 e List.mem_cons_self e .whole

end ClauseSql
