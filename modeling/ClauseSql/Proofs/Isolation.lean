import ClauseSql.Proofs.StoredLikeness

/-! Requests that share a pool. A request takes storage that earlier requests have used, and its
handles carry another generation than on a new pool, but nothing of this shows in its answer. Clones
of a pool are names of one and the same pool, so a history does not say by which of them a request has
come. -/
namespace ClauseSql

open Outcome

/-- A call of the compiler. A request that names no dialect asks for the typed model only. -/
structure Request where
  clause : Clause
  dialect : Option Dialect
  source : String
  entity : Entity

inductive Answer where
  | filterModel (model : Filter)
  | computeModel (items : List ComputeItem)
  | orderByModel (items : List OrderItem)
  | filter (sql : FilterSql)
  | compute (sql : ComputeSql)
  | orderBy (sql : OrderBySql)

namespace Request

def run (r : Request) (p : Pool) : Except Failure Answer × Pool :=
  match r.clause, r.dialect with
  | .filter, none => (Compiler.filterModel r.source r.entity p).map (Except.map .filterModel) id
  | .compute, none => (Compiler.computeModel r.source r.entity p).map (Except.map .computeModel) id
  | .orderBy, none => (Compiler.orderByModel r.source r.entity p).map (Except.map .orderByModel) id
  | .filter, some d => (Compiler.filter d r.source r.entity p).map (Except.map .filter) id
  | .compute, some d => (Compiler.compute d r.source r.entity p).map (Except.map .compute) id
  | .orderBy, some d => (Compiler.orderBy d r.source r.entity p).map (Except.map .orderBy) id

end Request

def Pool.serve (p : Pool) (requests : List Request) : Pool :=
  requests.foldl (fun p r => (r.run p).2) p

namespace Pool

theorem Reachable.build {ρ : Type} {p : Pool} (reachable : p.Reachable) (source : String)
    (parse : Builder → Builder.Result ρ) : (p.build source parse).2.Reachable := by
  have acquired := reachable.acquire source.toList
  rw [Pool.build]
  dsimp only
  cases parse ⟨(p.acquire source.toList).1, []⟩ with
  | mk outcome b =>
    cases outcome with
    | ok root => exact acquired
    | error error => exact acquired.release _

end Pool

namespace Compiler

theorem model_reachable {ρ α : Type} {parse : Pool → String → List Token → ParseResult ρ × Pool}
    {type : Pool → Entity → Tree → ρ → Except Failure α × Pool} {p : Pool} (reachable : p.Reachable)
    (parsed : ∀ {p : Pool} source ts, p.Reachable → (parse p source ts).2.Reachable)
    (typed : ∀ {p : Pool} entity t root, p.Reachable → (type p entity t root).2.Reachable)
    (source : String) (entity : Entity) : (model parse type source entity p).2.Reachable := by
  unfold model
  split
  · exact reachable
  · next ts _ =>
    have next := parsed source ts reachable
    split
    · next same => rwa [same] at next
    · next same =>
      rw [same] at next
      exact typed entity _ _ next

theorem filterModel_reachable {p : Pool} (reachable : p.Reachable) (source : String)
    (entity : Entity) : (filterModel source entity p).2.Reachable :=
  model_reachable reachable (fun source _ before => before.build source _)
    (fun _ t _ before => before.release t) source entity

theorem computeModel_reachable {p : Pool} (reachable : p.Reachable) (source : String)
    (entity : Entity) : (computeModel source entity p).2.Reachable :=
  model_reachable reachable (fun source _ before => before.build source _)
    (fun _ t _ before => before.release t) source entity

theorem orderByModel_reachable {p : Pool} (reachable : p.Reachable) (source : String)
    (entity : Entity) : (orderByModel source entity p).2.Reachable :=
  model_reachable reachable (fun source _ before => before.build source _)
    (fun _ t _ before => before.release t) source entity

end Compiler

theorem Request.run_reachable {p : Pool} (reachable : p.Reachable) (r : Request) :
    (r.run p).2.Reachable := by
  obtain ⟨clause, dialect, source, entity⟩ := r
  -- SQL is generated without the pool.
  cases clause <;> cases dialect
  · exact Compiler.filterModel_reachable reachable source entity
  · exact Compiler.filterModel_reachable reachable source entity
  · exact Compiler.computeModel_reachable reachable source entity
  · exact Compiler.computeModel_reachable reachable source entity
  · exact Compiler.orderByModel_reachable reachable source entity
  · exact Compiler.orderByModel_reachable reachable source entity

theorem Pool.Reachable.serve {p : Pool} (reachable : p.Reachable) (requests : List Request) :
    (p.serve requests).Reachable := by
  induction requests generalizing p with
  | nil => exact reachable
  | cons r requests ih => exact ih (r.run_reachable reachable)

def sameTexts : TextLikeness where
  literal _ a b := a = b
  name a b := a = b
  function a b := a = b

mutual
theorem Expr.Alike.eq {a b : Typing.TreeExpr} (alike : Expr.Alike sameTexts a b) : a = b := by
  match alike with
  | .literal same => exact congrArg (Expr.literal _) same
  | .path same => exact congrArg Expr.path same
  | .not inner => exact congrArg Expr.not inner.eq
  | .binary left right => exact congrArg₂ (Expr.binary _) left.eq right.eq
  | .call same args => exact congrArg₂ Expr.call same args.eq
  | .named inner same => exact congrArg₂ Expr.named inner.eq same
  | .ordered inner => exact congrArg (Expr.ordered · _) inner.eq
  | .broken => rfl
  | .brokenCall same => exact congrArg (Expr.brokenCall · ()) same
theorem Expr.AlikeAll.eq {as bs : List Typing.TreeExpr} (alike : Expr.AlikeAll sameTexts as bs) :
    as = bs := by
  match alike with
  | .nil => rfl
  | .cons first others => exact congrArg₂ List.cons first.eq others.eq
end

theorem Expr.AlikeAll.eq_of_rel {as bs : Option (List Typing.TreeExpr)}
    (alike : Option.Rel (Expr.AlikeAll sameTexts) as bs) : as = bs := by
  cases alike with
  | none => rfl
  | some alike => exact congrArg some alike.eq

theorem tokens_same (source : List Char) (generation other : UInt32) (ts : List Token) :
    List.Forall₂ (sameTexts.spans ⟨source, generation⟩ ⟨source, other⟩).Tokens ts ts := by
  rw [List.forall₂_same]
  intro t _
  refine ⟨rfl, ?_, fun _ => rfl⟩
  unfold Likeness.ofKind
  split
  · exact rfl
  · exact rfl
  · exact rfl
  · exact rfl
  · trivial

namespace Pool

/-- The items of a parsed clause as they are read from its tree; a filter has one, its condition. -/
def items? (p : Pool) (clause : Clause) (source : String) (ts : List Token) :
    Except ParseError (Option (List Typing.TreeExpr)) :=
  match clause with
  | .filter => (p.parseFilter source ts).1.map fun kept => some [kept.1.view kept.2]
  | .compute => (p.parseCompute source ts).1.map fun kept => kept.1.viewList? kept.2
  | .orderBy => (p.parseOrderBy source ts).1.map fun kept => kept.1.viewList? kept.2

theorem keep_seen {α ρ γ : Type} {p q : Pool} {source : String} {parsed : Except Parser.Stop α}
    {store : Tree → α → ρ × Tree} {see : Tree × ρ → γ}
    (same : ∀ kept other, (p.keep source parsed store).1 = .ok kept →
      (q.keep source parsed store).1 = .ok other → see kept = see other) :
    (p.keep source parsed store).1.map see = (q.keep source parsed store).1.map see := by
  cases parsed with
  | error stop => rfl
  | ok built => exact congrArg Except.ok (same _ _ rfl rfl)

variable {p q : Pool} (reachable : p.Reachable) (other : q.Reachable) (source : String)
  (ts : List Token)
include reachable other

theorem keepItems_seen {parsed : Except Parser.Stop (List ParsedExpr)}
    (same : Agree (Expr.AlikeAll (sameTexts.spans ⟨source.toList, p.generation⟩
      ⟨source.toList, q.generation⟩)) parsed parsed) :
    (p.keep source parsed storeItems).1.map (fun kept => kept.1.viewList? kept.2) =
      (q.keep source parsed storeItems).1.map (fun kept => kept.1.viewList? kept.2) := by
  refine keep_seen fun kept again parsed reparsed => ?_
  exact Expr.AlikeAll.eq_of_rel (keepItems_alike same reachable other parsed reparsed)

theorem items?_eq (clause : Clause) : p.items? clause source ts = q.items? clause source ts := by
  have same := tokens_same source.toList p.generation q.generation ts
  cases clause with
  | filter =>
    simp only [items?, parseFilter_eq]
    refine keep_seen fun kept again parsed reparsed => ?_
    have alike := keepRoot_alike (Likeness.filter_agree same) reachable other parsed reparsed
    exact congrArg (fun e => some [e]) alike.eq
  | compute =>
    simp only [items?, parseCompute_eq]
    exact keepItems_seen reachable other source (Likeness.compute_agree same)
  | orderBy =>
    simp only [items?, parseOrderBy_eq]
    exact keepItems_seen reachable other source (Likeness.orderBy_agree same)

end Pool

namespace Compiler

/-- A model is made from what is read of the parsed source, and from nothing else. -/
theorem model_seen {ρ α γ : Type} {parse : Pool → String → List Token → ParseResult ρ × Pool}
    {type : Pool → Entity → Tree → ρ → Except Failure α × Pool} {source : String} {entity : Entity}
    {ts : List Token} {p : Pool} {see : Tree × ρ → γ} (make : γ → Except Failure α)
    (made : ∀ p t root, (type p entity t root).1 = make (see (t, root)))
    (lexed : Token.tokenize source = .ok ts) :
    (model parse type source entity p).1 =
      ((parse p source ts).1.map see).mapError (fun error => .error (.grammar error)) >>= make := by
  unfold model
  rw [lexed]
  dsimp only
  match parse p source ts with
  | (.error error, p) => rfl
  | (.ok (t, root), p) => exact made p t root

theorem model_unlexed {ρ α : Type} {parse : Pool → String → List Token → ParseResult ρ × Pool}
    {type : Pool → Entity → Tree → ρ → Except Failure α × Pool} {source : String} {entity : Entity}
    {error : LexError} {p : Pool} (failed : Token.tokenize source = .error error) :
    (model parse type source entity p).1 = .error (.error (.lexical error)) := by
  unfold model
  rw [failed]

end Compiler

def Typing.condition (entity : Entity) : Option (List TreeExpr) → Result Filter
  | some [e] => filter entity e
  | _ => .error .broken

namespace Compiler

variable {source : String} {ts : List Token} {p : Pool} (lexed : Token.tokenize source = .ok ts)
  (entity : Entity)
include lexed

theorem filterModel_seen :
    (filterModel source entity p).1 =
      (p.items? .filter source ts).mapError (fun error => .error (.grammar error)) >>=
        Typing.condition entity :=
  model_seen (Typing.condition entity) (fun _ _ _ => rfl) lexed

theorem computeModel_seen :
    (computeModel source entity p).1 =
      (p.items? .compute source ts).mapError (fun error => .error (.grammar error)) >>=
        fun items => Typing.readable items >>= Typing.compute entity [] :=
  model_seen (fun items => Typing.readable items >>= Typing.compute entity []) (fun _ _ _ => rfl) lexed

theorem orderByModel_seen :
    (orderByModel source entity p).1 =
      (p.items? .orderBy source ts).mapError (fun error => .error (.grammar error)) >>=
        fun items => Typing.readable items >>= Typing.orderBy entity 1 :=
  model_seen (fun items => Typing.readable items >>= Typing.orderBy entity 1) (fun _ _ _ => rfl) lexed

end Compiler

namespace Request

theorem run_eq_of_models {clause : Clause} {dialect : Option Dialect} {entity : Entity}
    {source text : String} {p q : Pool}
    (filters : clause = .filter →
      (Compiler.filterModel source entity p).1 = (Compiler.filterModel text entity q).1)
    (computes : clause = .compute →
      (Compiler.computeModel source entity p).1 = (Compiler.computeModel text entity q).1)
    (orders : clause = .orderBy →
      (Compiler.orderByModel source entity p).1 = (Compiler.orderByModel text entity q).1) :
    (Request.run ⟨clause, dialect, source, entity⟩ p).1 =
      (Request.run ⟨clause, dialect, text, entity⟩ q).1 := by
  cases clause with
  | filter => cases dialect <;> simp [run, Compiler.filter, Compiler.generate, filters]
  | compute => cases dialect <;> simp [run, Compiler.compute, Compiler.generate, computes]
  | orderBy => cases dialect <;> simp [run, Compiler.orderBy, Compiler.generate, orders]

theorem run_eq_of_items {clause : Clause} {dialect : Option Dialect} {entity : Entity}
    {source text : String} {ts us : List Token} {p q : Pool}
    (lexed : Token.tokenize source = .ok ts) (relexed : Token.tokenize text = .ok us)
    (same : p.items? clause source ts = q.items? clause text us) :
    (Request.run ⟨clause, dialect, source, entity⟩ p).1 =
      (Request.run ⟨clause, dialect, text, entity⟩ q).1 := by
  apply run_eq_of_models
  · rintro rfl
    rw [Compiler.filterModel_seen lexed, Compiler.filterModel_seen relexed, same]
  · rintro rfl
    rw [Compiler.computeModel_seen lexed, Compiler.computeModel_seen relexed, same]
  · rintro rfl
    rw [Compiler.orderByModel_seen lexed, Compiler.orderByModel_seen relexed, same]

theorem run_eq {p q : Pool} (reachable : p.Reachable) (other : q.Reachable) (r : Request) :
    (r.run p).1 = (r.run q).1 := by
  obtain ⟨clause, dialect, source, entity⟩ := r
  cases lexed : Token.tokenize source with
  | ok ts =>
    exact run_eq_of_items lexed lexed (Pool.items?_eq reachable other source ts clause)
  | error error =>
    have unlexed {ρ α : Type} {parse : Pool → String → List Token → ParseResult ρ × Pool}
        {type : Pool → Entity → Tree → ρ → Except Failure α × Pool} :
        (Compiler.model parse type source entity p).1 =
          (Compiler.model parse type source entity q).1 := by
      rw [Compiler.model_unlexed lexed, Compiler.model_unlexed lexed]
    exact run_eq_of_models (fun _ => unlexed) (fun _ => unlexed) (fun _ => unlexed)

end Request

/-- Whatever requests a pool has served before, a request gets the answer that it gets alone on a new
pool: the same model or SQL, or the same error. -/
theorem requests_do_not_interfere (capacity fresh : Nat) (earlier : List Request) (r : Request) :
    (r.run ((Pool.ofCapacity capacity).serve earlier)).1 = (r.run (Pool.ofCapacity fresh)).1 :=
  r.run_eq ((Pool.Reachable.ofCapacity capacity).serve earlier) (.ofCapacity fresh)

end ClauseSql
