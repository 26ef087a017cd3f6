import ClauseSql.Proofs.Building
import ClauseSql.Proofs.Outcome

/-! The way of a clause taken apart. A clause comes to SQL if and only if it has tokens, these have a
tree, the tree has a typed model, and the model has an SQL form. -/
namespace ClauseSql

open Outcome

theorem Pool.keep_eq_ok {α ρ : Type} {p : Pool} {source : String} {parsed : Except Parser.Stop α}
    {store : Tree → α → ρ × Tree} {t : Tree} {root : ρ} :
    (p.keep source parsed store).1 = .ok (t, root) ↔
      ∃ built, parsed = .ok built ∧ store (p.acquire source.toList).1 built = (root, t) := by
  unfold Pool.keep
  cases parsed with
  | error => simp
  | ok built =>
    simp only [Except.ok.injEq, Prod.mk.injEq, exists_eq_left']
    constructor
    · rintro ⟨rfl, rfl⟩
      rfl
    · intro stored
      rw [stored]
      exact ⟨rfl, rfl⟩

namespace Compiler

section Model

variable {ρ α : Type} {parse : Pool → String → List Token → ParseResult ρ × Pool}
  {type : Pool → Entity → Tree → ρ → Except Failure α × Pool}

theorem model_eq_ok {source : String} {entity : Entity} {p : Pool} {made : α} :
    (model parse type source entity p).1 = .ok made ↔
      ∃ ts, Token.tokenize source = .ok ts ∧
        ∃ t root, (parse p source ts).1 = .ok (t, root) ∧
          (type (parse p source ts).2 entity t root).1 = .ok made := by
  unfold model
  cases Token.tokenize source with
  | error => simp
  | ok ts =>
    simp only [Except.ok.injEq, exists_eq_left']
    generalize parse p source ts = parsed
    obtain ⟨outcome, q⟩ := parsed
    cases outcome with
    | error => simp
    | ok kept =>
      obtain ⟨t, root⟩ := kept
      constructor
      · intro typed
        exact ⟨t, root, rfl, typed⟩
      · rintro ⟨_, _, equal, typed⟩
        cases equal
        exact typed

end Model

theorem generate_eq_ok {α β : Type} {generation : α → Except Error β}
    {result : Except Failure α × Pool} {out : β} :
    (generate generation result).1 = .ok out ↔
      ∃ made, result.1 = .ok made ∧ generation made = .ok out := by
  simp only [generate, bind_eq_ok, mapError_eq_ok]

variable {dialect : Dialect} {source : String} {entity : Entity} {p : Pool}

theorem filter_eq_ok {out : FilterSql} :
    (filter dialect source entity p).1 = .ok out ↔
      ∃ ts, Token.tokenize source = .ok ts ∧ ∃ t root, (p.parseFilter source ts).1 = .ok (t, root) ∧
        ∃ f, Typing.filter entity (t.view root) = .ok f ∧
          Generation.filterSql dialect entity f = .ok out := by
  simp only [filter, generate_eq_ok, filterModel, model_eq_ok, Pool.typeFilter]
  grind

theorem compute_eq_ok {out : ComputeSql} :
    (compute dialect source entity p).1 = .ok out ↔
      ∃ ts, Token.tokenize source = .ok ts ∧ ∃ t list, (p.parseCompute source ts).1 = .ok (t, list) ∧
        ∃ items, Typing.readable (t.viewList? list) >>= Typing.compute entity [] = .ok items ∧
          Generation.computeSql dialect entity items = .ok out := by
  simp only [compute, generate_eq_ok, computeModel, model_eq_ok, Pool.typeCompute]
  grind

theorem orderBy_eq_ok {out : OrderBySql} :
    (orderBy dialect source entity p).1 = .ok out ↔
      ∃ ts, Token.tokenize source = .ok ts ∧ ∃ t list, (p.parseOrderBy source ts).1 = .ok (t, list) ∧
        ∃ items, Typing.readable (t.viewList? list) >>= Typing.orderBy entity 1 = .ok items ∧
          Generation.orderBySql dialect entity items = .ok out := by
  simp only [orderBy, generate_eq_ok, orderByModel, model_eq_ok, Pool.typeOrderBy]
  grind

end Compiler

end ClauseSql
