import ClauseSql.Proofs.ListClauses

/-! What can be read from a tree at all. Handles have 32 bits, so a tree with more nodes than that issues
some of them twice. Whatever a handle leads to, it was stored while its operands could be told apart, so
what is read there is a part of what has been parsed, for trees of any size. -/
namespace ClauseSql

open Outcome

/-- The value is read from a part of one of the expressions, or there is nothing to read. -/
def Expr.Fragment (text? : Span → Option (List Char)) (es : List ParsedExpr) (value : Typing.TreeExpr) :
    Prop :=
  value = .broken () ∨ ∃ e ∈ es, ∃ part : ParsedExpr, part.Part e ∧ value = part.read text?

namespace Tree

/-- At this place of the tree lies the root of a part of an expression, stored there as if it were
alone. -/
def Lodges (t : Tree) (place : Nat) (e : ParsedExpr) : Prop :=
  ∃ (part : ParsedExpr) (u : Tree), part.Part e ∧ u.held ≤ u.count ∧ u.count + part.size = place + 1 ∧
    (u.store part).2.Grows t

namespace Lodges

variable {t u : Tree} {place : Nat} {e : ParsedExpr}

theorem grown (lodges : t.Lodges place e) (grown : t.Grows u) : u.Lodges place e := by
  obtain ⟨part, before, inside, compact, count, stored⟩ := lodges
  exact ⟨part, before, inside, compact, count, stored.trans grown⟩

theorem imp {whole : ParsedExpr} (lodges : t.Lodges place e)
    (inside : ∀ part : ParsedExpr, part.Part e → part.Part whole) : t.Lodges place whole := by
  obtain ⟨part, before, within, rest⟩ := lodges
  exact ⟨part, before, inside part within, rest⟩

theorem last (compact : t.held ≤ t.count) (ends : (t.store e).2.count = place + 1) :
    (t.store e).2.Lodges place e :=
  ⟨e, t, .whole, compact, (t.count_store e).symm.trans ends, .refl _⟩

theorem view (lodges : t.Lodges place e) (small : place < handles) :
    ∃ part : ParsedExpr, part.Part e ∧ t.view (t.handle place) = part.read t.text? := by
  obtain ⟨part, before, inside, compact, count, stored⟩ := lodges
  refine ⟨part, inside, ?_⟩
  obtain ⟨m, next, -, rooted⟩ := settled_store stored (by omega) compact
  rw [count_store, count, Nat.add_right_cancel_iff] at next
  subst next
  have grown : place + 1 ≤ t.count := by
    rw [← count, ← count_store]
    exact stored.nodes.length_le
  have deep : Expr.sizeOfAll [part] ≤ t.count := by
    simp only [Expr.sizeOfAll]
    omega
  exact (List.cons.inj (rooted.alone.viewTo small t.count deep)).1

end Lodges

mutual
theorem lodges_store {t : Tree} (e : ParsedExpr) (compact : t.held ≤ t.count) {place : Nat}
    (later : t.count ≤ place) (taken : place < (t.store e).2.count) : (t.store e).2.Lodges place e := by
  by_cases ends : (t.store e).2.count = place + 1
  · exact .last compact ends
  match e with
  | .literal kind text | .path text =>
    simp only [store, count_push] at taken ends
    omega
  | .not operand =>
    simp only [store, count_push] at taken ends
    have inside := lodges_store operand compact later (by omega)
    exact (inside.grown (grows_push _ _)).imp fun _ => .not
  | .binary op left right =>
    simp only [store, count_push] at taken ends
    by_cases early : place < (t.store left).2.count
    · have inside := lodges_store left compact later early
      exact (inside.grown ((grows_store _ right).trans (grows_push _ _))).imp fun _ => .left
    · have inside := lodges_store right (compact_store compact left) (Nat.not_lt.1 early) (by omega)
      exact (inside.grown (grows_push _ _)).imp fun _ => .right
  | .call name args =>
    simp only [store, count_push, count_pushArgs] at taken ends
    obtain ⟨arg, member, inside⟩ := lodges_storeAll args compact later (by omega)
    exact (inside.grown ((grows_pushArgs _ _).trans (grows_push _ _))).imp fun _ => .argument member
  | .named value name =>
    simp only [store, count_push] at taken ends
    have inside := lodges_store value compact later (by omega)
    exact (inside.grown (grows_push _ _)).imp fun _ => .named
  | .ordered value descending =>
    simp only [store, count_push] at taken ends
    have inside := lodges_store value compact later (by omega)
    exact (inside.grown (grows_push _ _)).imp fun _ => .ordered
  | .broken reason => exact nomatch reason
  | .brokenCall _ reason => exact nomatch reason
theorem lodges_storeAll {t : Tree} (es : List ParsedExpr) (compact : t.held ≤ t.count) {place : Nat}
    (later : t.count ≤ place) (taken : place < (t.storeAll es).2.count) :
    ∃ e ∈ es, (t.storeAll es).2.Lodges place e := by
  match es with
  | [] =>
    simp only [storeAll] at taken
    omega
  | e :: es =>
    by_cases early : place < (t.store e).2.count
    · have inside := lodges_store e compact later early
      exact ⟨e, List.mem_cons_self, inside.grown (grows_storeAll _ es)⟩
    · have rest : place < ((t.store e).2.storeAll es).2.count := taken
      obtain ⟨f, member, inside⟩ :=
        lodges_storeAll es (compact_store compact e) (Nat.not_lt.1 early) rest
      exact ⟨f, List.mem_cons_of_mem _ member, inside⟩
end

theorem fragment_of_lodges {t : Tree} {es : List ParsedExpr}
    (lodges : ∀ place < t.count, ∃ e ∈ es, t.Lodges place e) (id : NodeId) :
    Expr.Fragment t.text? es (t.view id) := by
  by_cases known : id.generation = t.generation ∧ id.index.toNat < t.count
  · obtain ⟨e, member, inside⟩ := lodges _ known.2
    obtain ⟨part, within, seen⟩ := inside.view id.index.toNat_lt
    have same : t.handle id.index.toNat = id := by
      rw [handle, ← known.1]
      simp
    rw [same] at seen
    exact .inr ⟨e, member, part, within, seen⟩
  · have missing : t.get? id = none := by
      rw [get?]
      split
      · next generation =>
        exact Array.getElem?_eq_none (Nat.not_lt.1 fun inside => known ⟨generation, inside⟩)
      · rfl
    refine .inl ?_
    rw [Tree.view]
    cases t.count with
    | zero => rfl
    | succ depth => simp only [viewTo, missing]

end Tree

namespace Pool

variable {p : Pool} (reachable : p.Reachable) (source : String)
include reachable

theorem Reachable.text?_of_grows {t : Tree} (grown : (p.acquire source.toList).1.Grows t) :
    t.text? = covered source.toList := by
  rw [Tree.text?_eq_origin, grown.origin, (reachable.acquire_bare source.toList).2.2]
  rfl

theorem Reachable.fragment_store (e : ParsedExpr) (id : NodeId) :
    Expr.Fragment (covered source.toList) [e] (((p.acquire source.toList).1.store e).2.view id) := by
  obtain ⟨empty, bare, -⟩ := reachable.acquire_bare source.toList
  rw [← reachable.text?_of_grows source (Tree.grows_store _ e)]
  refine Tree.fragment_of_lodges (fun place taken => ⟨e, List.mem_singleton_self e, ?_⟩) id
  exact Tree.lodges_store e (by omega) (by omega) taken

theorem Reachable.fragment_storeItems (es : List ParsedExpr) (id : NodeId) :
    Expr.Fragment (covered source.toList) es
      ((storeItems (p.acquire source.toList).1 es).2.view id) := by
  obtain ⟨empty, bare, -⟩ := reachable.acquire_bare source.toList
  have grown := Tree.grows_pushArgs ((p.acquire source.toList).1.storeAll es).2
    ((p.acquire source.toList).1.storeAll es).1
  rw [← reachable.text?_of_grows source ((Tree.grows_storeAll _ es).trans grown)]
  refine Tree.fragment_of_lodges (fun place taken => ?_) id
  obtain ⟨e, member, inside⟩ := Tree.lodges_storeAll es (by omega) (by omega) taken
  exact ⟨e, member, inside.grown grown⟩

theorem keepItems_fragments {parsed : Except Parser.Stop (List ParsedExpr)}
    {items : List Typing.TreeExpr}
    (seen : (p.keep source parsed storeItems).1.map (fun kept => kept.1.viewList? kept.2) =
      .ok (some items)) :
    ∃ es, parsed = .ok es ∧ ∀ item ∈ items, Expr.Fragment (covered source.toList) es item := by
  obtain ⟨⟨t, list⟩, kept, read⟩ := map_eq_ok.1 seen
  obtain ⟨es, built, stored⟩ := keep_eq_ok.1 kept
  refine ⟨es, built, fun item member => ?_⟩
  obtain ⟨ids, -, rfl⟩ := Option.map_eq_some_iff.1 read
  obtain ⟨id, -, rfl⟩ := List.mem_map.1 member
  have fragment := reachable.fragment_storeItems source es id
  rwa [stored] at fragment

/-- The items that are read from the tree of a parsed clause are parts of its items, whatever the size
of the tree. -/
theorem items?_fragments {clause : Clause} {ts : List Token} {items : List Typing.TreeExpr}
    (seen : p.items? clause source ts = .ok (some items)) :
    ∃ es, Parser.clause clause ts = .ok es ∧
      ∀ item ∈ items, Expr.Fragment (covered source.toList) es item := by
  cases clause with
  | filter =>
    rw [items?, parseFilter_eq] at seen
    obtain ⟨⟨t, root⟩, kept, read⟩ := map_eq_ok.1 seen
    obtain ⟨e, built, stored⟩ := keep_eq_ok.1 kept
    refine ⟨[e], by rw [Parser.clause, built]; rfl, ?_⟩
    have fragment := reachable.fragment_store source e root
    rw [stored] at fragment
    cases read
    simpa using fragment
  | compute =>
    rw [items?, parseCompute_eq] at seen
    exact keepItems_fragments reachable source seen
  | orderBy =>
    rw [items?, parseOrderBy_eq] at seen
    exact keepItems_fragments reachable source seen

theorem items?_parsed {clause : Clause} {ts : List Token} {es : List ParsedExpr}
    {items : List Typing.TreeExpr} (lexed : Token.tokenize source = .ok ts) (few : ts.length ≤ handles)
    (parsed : Parser.clause clause ts = .ok es) (seen : p.items? clause source ts = .ok (some items)) :
    items = Expr.readAll (covered source.toList) es := by
  have room := (Parser.clause_size_le_length lexed parsed).trans few
  rw [items?_covered reachable source parsed room] at seen
  cases seen
  rfl

theorem items?_spelled {clause : Clause} {ts : List Token} {items : List Typing.TreeExpr}
    (lexed : Token.tokenize source = .ok ts) (few : ts.length ≤ handles)
    (seen : p.items? clause source ts = .ok (some items)) :
    ∃ body last es, ts = body ++ [last] ∧ last.kind = .eof ∧ Grammar.SpellsItems clause body es ∧
      items = Expr.readAll (covered source.toList) es := by
  obtain ⟨es, parsed, -⟩ := items?_fragments reachable source seen
  have read := items?_parsed reachable source lexed few parsed seen
  obtain ⟨body, last, rfl, ends, spelled⟩ := Grammar.clause_spelling lexed parsed
  exact ⟨body, last, es, rfl, ends, spelled, read⟩

end Pool

namespace Compiler

variable {source : String} {entity : Entity} {p : Pool}

theorem filterModel_items {f : Filter} (done : (filterModel source entity p).1 = .ok f) :
    ∃ ts e, Token.tokenize source = .ok ts ∧ p.items? .filter source ts = .ok (some [e]) ∧
      Typing.filter entity e = .ok f := by
  obtain ⟨ts, lexed, t, root, kept, typed⟩ := model_eq_ok.1 done
  exact ⟨ts, t.view root, lexed, map_eq_ok.2 ⟨_, kept, rfl⟩, typed⟩

theorem computeModel_items {made : List ComputeItem} (done : (computeModel source entity p).1 = .ok made) :
    ∃ ts es, Token.tokenize source = .ok ts ∧ p.items? .compute source ts = .ok (some es) ∧
      Typing.compute entity [] es = .ok made := by
  obtain ⟨ts, lexed, t, list, kept, typed⟩ := model_eq_ok.1 done
  obtain ⟨es, found, typed⟩ := bind_eq_ok.1 typed
  rw [Typing.readable_eq_ok] at found
  exact ⟨ts, es, lexed, map_eq_ok.2 ⟨_, kept, found⟩, typed⟩

theorem orderByModel_items {made : List OrderItem} (done : (orderByModel source entity p).1 = .ok made) :
    ∃ ts es, Token.tokenize source = .ok ts ∧ p.items? .orderBy source ts = .ok (some es) ∧
      Typing.orderBy entity 1 es = .ok made := by
  obtain ⟨ts, lexed, t, list, kept, typed⟩ := model_eq_ok.1 done
  obtain ⟨es, found, typed⟩ := bind_eq_ok.1 typed
  rw [Typing.readable_eq_ok] at found
  exact ⟨ts, es, lexed, map_eq_ok.2 ⟨_, kept, found⟩, typed⟩

end Compiler

end ClauseSql
