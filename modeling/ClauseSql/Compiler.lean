import ClauseSql.Model.Typing
import ClauseSql.Sql.Generation
import ClauseSql.Storage.Builder
import ClauseSql.Storage.Pool
import ClauseSql.Token.Scan

/-! The way of a clause from its source to SQL, through a tree in pooled storage. Each step gives
the pool back as it has left it. -/
namespace ClauseSql

inductive Clause where
  | filter
  | compute
  | orderBy
  deriving DecidableEq, Repr

abbrev ParseResult (ρ : Type) := Except ParseError (Tree × ρ)

namespace Pool

/-- Parses into a tree of this pool. The storage of a failed parse is given back at once. -/
def build {ρ : Type} (p : Pool) (source : String) (parse : Builder → Builder.Result ρ) :
    ParseResult ρ × Pool :=
  let (tree, p) := p.acquire source.toList
  match parse ⟨tree, []⟩ with
  | (.ok root, b) => (.ok (b.tree, root), p)
  | (.error error, b) => (.error error, p.release b.tree)

def parseFilter (p : Pool) (source : String) (ts : List Token) : ParseResult NodeId × Pool :=
  p.build source (Builder.filter ts)

def parseCompute (p : Pool) (source : String) (ts : List Token) : ParseResult ArgList × Pool :=
  p.build source (Builder.list Builder.computeItem ts)

def parseOrderBy (p : Pool) (source : String) (ts : List Token) : ParseResult ArgList × Pool :=
  p.build source (Builder.list Builder.orderItem ts)

def typeFilter (p : Pool) (entity : Entity) (t : Tree) (root : NodeId) :
    Except Failure Filter × Pool :=
  (Typing.filter entity (t.view root), p.release t)

def typeCompute (p : Pool) (entity : Entity) (t : Tree) (list : ArgList) :
    Except Failure (List ComputeItem) × Pool :=
  (Typing.readable (t.viewList? list) >>= Typing.compute entity [], p.release t)

def typeOrderBy (p : Pool) (entity : Entity) (t : Tree) (list : ArgList) :
    Except Failure (List OrderItem) × Pool :=
  (Typing.readable (t.viewList? list) >>= Typing.orderBy entity 1, p.release t)

end Pool

namespace Compiler

/-- Runs a parser and a typing step one after the other. Nothing is taken from the pool for a source
that has no tokens. -/
def model {ρ α : Type} (parse : Pool → String → List Token → ParseResult ρ × Pool)
    (type : Pool → Entity → Tree → ρ → Except Failure α × Pool)
    (source : String) (entity : Entity) (p : Pool) : Except Failure α × Pool :=
  match Token.tokenize source with
  | .error error => (.error (.error (.lexical error)), p)
  | .ok ts =>
    match parse p source ts with
    | (.error error, p) => (.error (.error (.grammar error)), p)
    | (.ok (tree, root), p) => type p entity tree root

def filterModel (source : String) (entity : Entity) (p : Pool) : Except Failure Filter × Pool :=
  model Pool.parseFilter Pool.typeFilter source entity p

def computeModel (source : String) (entity : Entity) (p : Pool) :
    Except Failure (List ComputeItem) × Pool :=
  model Pool.parseCompute Pool.typeCompute source entity p

def orderByModel (source : String) (entity : Entity) (p : Pool) :
    Except Failure (List OrderItem) × Pool :=
  model Pool.parseOrderBy Pool.typeOrderBy source entity p

def generate {α β : Type} (generation : α → Except Error β) (result : Except Failure α × Pool) :
    Except Failure β × Pool :=
  (result.1 >>= fun model => (generation model).mapError .error, result.2)

def filter (dialect : Dialect) (source : String) (entity : Entity) (p : Pool) :
    Except Failure FilterSql × Pool :=
  generate (Generation.filterSql dialect entity) (filterModel source entity p)

def compute (dialect : Dialect) (source : String) (entity : Entity) (p : Pool) :
    Except Failure ComputeSql × Pool :=
  generate (Generation.computeSql dialect entity) (computeModel source entity p)

def orderBy (dialect : Dialect) (source : String) (entity : Entity) (p : Pool) :
    Except Failure OrderBySql × Pool :=
  generate (Generation.orderBySql dialect entity) (orderByModel source entity p)

end Compiler

end ClauseSql
