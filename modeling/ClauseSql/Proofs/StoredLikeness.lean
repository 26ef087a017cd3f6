import ClauseSql.Proofs.Likeness
import ClauseSql.Proofs.Stages

/-! Alike expressions in flat storage. Two trees that store alike expressions, one after the other,
issue the same handles up to their generations, and what is read back from such handles is alike
again. This holds however many nodes there are, since a place that wraps around does so in both
trees. -/
namespace ClauseSql

def Likeness.comap {σ τ α β : Type} (like : Likeness σ τ) (f : α → σ) (g : β → τ) :
    Likeness α β where
  literal kind a b := like.literal kind (f a) (g b)
  name a b := like.name (f a) (g b)
  function a b := like.function (f a) (g b)

/-- What a tree keeps while it grows. -/
structure Tree.Origin where
  source : List Char
  generation : UInt32

def Tree.origin (t : Tree) : Tree.Origin := ⟨t.source, t.generation⟩

def Tree.Origin.text? (o : Tree.Origin) (span : Span) : Option (List Char) :=
  Text.slice? o.source span.start span.stop

abbrev TextLikeness := Likeness (Option (List Char)) (Option (List Char))

def TextLikeness.spans (like : TextLikeness) (o p : Tree.Origin) : Likeness Span Span :=
  like.comap o.text? p.text?

structure NodeId.Alike (o p : Tree.Origin) (a b : NodeId) : Prop where
  index : a.index = b.index
  left : a.generation = o.generation
  right : b.generation = p.generation

inductive Node.Alike (like : TextLikeness) (o p : Tree.Origin) : Node → Node → Prop
  | literal {kind : LiteralKind} {s t : Span} : (like.spans o p).literal kind s t →
      Node.Alike like o p (.literal kind s) (.literal kind t)
  | path {s t : Span} : (like.spans o p).name s t → Node.Alike like o p (.path s) (.path t)
  | not {a b : NodeId} : a.Alike o p b → Node.Alike like o p (.not a) (.not b)
  | binary {op : BinaryOperator} {a b c d : NodeId} : a.Alike o p b → c.Alike o p d →
      Node.Alike like o p (.binary op a c) (.binary op b d)
  | call {s t : Span} {args : ArgList} : (like.spans o p).function s t →
      Node.Alike like o p (.call s args) (.call t args)
  | named {a b : NodeId} {s t : Span} : a.Alike o p b → (like.spans o p).name s t →
      Node.Alike like o p (.named a s) (.named b t)
  | ordered {a b : NodeId} {descending : Bool} : a.Alike o p b →
      Node.Alike like o p (.ordered a descending) (.ordered b descending)

theorem related_getElem? {α β : Type} {related : α → β → Prop} {as : List α} {bs : List β}
    (all : List.Forall₂ related as bs) (index : Nat) :
    Option.Rel related as[index]? bs[index]? := by
  induction all generalizing index with
  | nil => simp
  | cons first _ ih =>
    cases index with
    | zero => exact .some first
    | succ index => simpa using ih index

theorem alikeAll_map {σ τ β γ ι κ : Type} {like : Likeness σ τ} {related : ι → κ → Prop}
    {as : List ι} {bs : List κ} (all : List.Forall₂ related as bs) {f : ι → Expr σ β}
    {g : κ → Expr τ γ} (each : ∀ a b, related a b → Expr.Alike like (f a) (g b)) :
    Expr.AlikeAll like (as.map f) (bs.map g) := by
  induction all with
  | nil => exact .nil
  | cons first _ ih => exact .cons (each _ _ first) ih

structure Tree.Alike (like : TextLikeness) (o p : Tree.Origin) (t u : Tree) : Prop where
  left : t.origin = o
  right : u.origin = p
  nodes : List.Forall₂ (Node.Alike like o p) t.storage.nodes.toList u.storage.nodes.toList
  arguments :
    List.Forall₂ (NodeId.Alike o p) t.storage.arguments.toList u.storage.arguments.toList

namespace Tree.Alike

variable {like : TextLikeness} {o p : Tree.Origin} {t u : Tree}

theorem count_eq (same : Tree.Alike like o p t u) : t.count = u.count := by
  simpa [Tree.count] using same.nodes.length_eq

theorem push (same : Tree.Alike like o p t u) {m n : Node} (node : Node.Alike like o p m n) :
    NodeId.Alike o p (t.push m).1 (u.push n).1 ∧ Tree.Alike like o p (t.push m).2 (u.push n).2 := by
  obtain ⟨rfl, rfl, nodes, arguments⟩ := same
  refine ⟨⟨?_, rfl, rfl⟩, rfl, rfl, ?_, arguments⟩
  · exact congrArg Nat.toUInt32 (count_eq ⟨rfl, rfl, nodes, arguments⟩)
  · simpa [Tree.push, Storage.push] using List.rel_append nodes (.cons node .nil)

theorem pushArgs (same : Tree.Alike like o p t u) {as bs : List NodeId}
    (ids : List.Forall₂ (NodeId.Alike o p) as bs) :
    (t.pushArgs as).1 = (u.pushArgs bs).1 ∧
      Tree.Alike like o p (t.pushArgs as).2 (u.pushArgs bs).2 := by
  obtain ⟨rfl, rfl, nodes, arguments⟩ := same
  have sizes : t.storage.arguments.size = u.storage.arguments.size := by
    simpa using arguments.length_eq
  refine ⟨?_, rfl, rfl, nodes, ?_⟩
  · simp only [Tree.pushArgs, sizes, ids.length_eq]
  · simpa [Tree.pushArgs, Storage.pushArgs] using List.rel_append arguments ids

mutual
theorem store {a b : ParsedExpr} (alike : Expr.Alike (like.spans o p) a b) {t u : Tree}
    (same : Tree.Alike like o p t u) :
    NodeId.Alike o p (t.store a).1 (u.store b).1 ∧
      Tree.Alike like o p (t.store a).2 (u.store b).2 := by
  match alike with
  | .literal text => exact same.push (.literal text)
  | .path text => exact same.push (.path text)
  | .not inner =>
    obtain ⟨id, same⟩ := store inner same
    exact same.push (.not id)
  | .binary left right =>
    obtain ⟨leftId, same⟩ := store left same
    obtain ⟨rightId, same⟩ := store right same
    exact same.push (.binary leftId rightId)
  | .call name args =>
    obtain ⟨ids, same⟩ := storeAll args same
    obtain ⟨list, same⟩ := same.pushArgs ids
    simp only [Tree.store, list]
    exact same.push (.call name)
  | .named inner name =>
    obtain ⟨id, same⟩ := store inner same
    exact same.push (.named id name)
  | .ordered inner =>
    obtain ⟨id, same⟩ := store inner same
    exact same.push (.ordered id)
  | .broken (x := x) => exact nomatch x
  | .brokenCall (x := x) _ => exact nomatch x
theorem storeAll {as bs : List ParsedExpr} (alike : Expr.AlikeAll (like.spans o p) as bs)
    {t u : Tree} (same : Tree.Alike like o p t u) :
    List.Forall₂ (NodeId.Alike o p) (t.storeAll as).1 (u.storeAll bs).1 ∧
      Tree.Alike like o p (t.storeAll as).2 (u.storeAll bs).2 := by
  match alike with
  | .nil => exact ⟨.nil, same⟩
  | .cons first others =>
    obtain ⟨id, same⟩ := store first same
    obtain ⟨ids, same⟩ := storeAll others same
    exact ⟨.cons id ids, same⟩
end

theorem storeItems {as bs : List ParsedExpr} (alike : Expr.AlikeAll (like.spans o p) as bs)
    (same : Tree.Alike like o p t u) :
    (Pool.storeItems t as).1 = (Pool.storeItems u bs).1 ∧
      Tree.Alike like o p (Pool.storeItems t as).2 (Pool.storeItems u bs).2 := by
  obtain ⟨ids, same⟩ := storeAll alike same
  exact same.pushArgs ids

theorem get? (same : Tree.Alike like o p t u) {a b : NodeId} (ids : a.Alike o p b) :
    Option.Rel (Node.Alike like o p) (t.get? a) (u.get? b) := by
  have issued : a.generation = t.generation := by rw [ids.left, ← same.left]; rfl
  have accepted : b.generation = u.generation := by rw [ids.right, ← same.right]; rfl
  simp only [Tree.get?, issued, accepted, if_true, ids.index, ← Array.getElem?_toList]
  exact related_getElem? same.nodes b.index.toNat

theorem args? (same : Tree.Alike like o p t u) (list : ArgList) :
    Option.Rel (List.Forall₂ (NodeId.Alike o p)) (t.args? list) (u.args? list) := by
  have sizes : t.storage.arguments.size = u.storage.arguments.size := by
    simpa using same.arguments.length_eq
  unfold Tree.args?
  simp only [sizes]
  split
  · refine .some ?_
    simp only [Array.toList_extract, List.extract_eq_take_drop]
    exact List.forall₂_take _ (List.forall₂_drop _ same.arguments)
  · exact .none

theorem viewTo (same : Tree.Alike like o p t u) (depth : Nat) {a b : NodeId}
    (ids : a.Alike o p b) : Expr.Alike like (t.viewTo depth a) (u.viewTo depth b) := by
  induction depth generalizing a b with
  | zero => exact .broken
  | succ depth ih =>
    have node := same.get? ids
    have texts : ∀ span, t.text? span = o.text? span := fun span => by rw [← same.left]; rfl
    have others : ∀ span, u.text? span = p.text? span := fun span => by rw [← same.right]; rfl
    unfold Tree.viewTo
    generalize t.get? a = left at node ⊢
    generalize u.get? b = right at node ⊢
    cases node with
    | none => exact .broken
    | some node =>
      cases node with
      | literal text =>
        simp only [texts, others]
        exact .literal text
      | path text =>
        simp only [texts, others]
        exact .path text
      | not inner => exact .not (ih inner)
      | binary left right => exact .binary (ih left) (ih right)
      | @call s r args name =>
        have ids := same.args? args
        simp only [texts, others]
        generalize t.args? args = left at ids ⊢
        generalize u.args? args = right at ids ⊢
        cases ids with
        | none => exact .brokenCall name
        | some ids => exact .call name (alikeAll_map ids fun _ _ => ih)
      | named inner text =>
        simp only [texts, others]
        exact .named (ih inner) text
      | ordered inner => exact .ordered (ih inner)

theorem view (same : Tree.Alike like o p t u) {a b : NodeId} (ids : a.Alike o p b) :
    Expr.Alike like (t.view a) (u.view b) := by
  unfold Tree.view
  rw [same.count_eq]
  exact same.viewTo u.count ids

theorem viewList? (same : Tree.Alike like o p t u) (list : ArgList) :
    Option.Rel (Expr.AlikeAll like) (t.viewList? list) (u.viewList? list) := by
  have ids := same.args? list
  unfold Tree.viewList?
  generalize t.args? list = left at ids ⊢
  generalize u.args? list = right at ids ⊢
  cases ids with
  | none => exact .none
  | some ids => exact .some (alikeAll_map ids fun _ _ => same.view)

end Tree.Alike

namespace Pool

/-- A pool as its own operations make it. Every step that works with a pool only takes trees from it
and releases trees to it. -/
inductive Reachable : Pool → Prop
  | ofCapacity (capacity : Nat) : Reachable (ofCapacity capacity)
  | acquire {p : Pool} (source : List Char) : Reachable p → Reachable (p.acquire source).2
  | release {p : Pool} (t : Tree) : Reachable p → Reachable (p.release t)

theorem Reachable.free_empty {p : Pool} (reachable : p.Reachable) :
    ∀ s ∈ p.free, s.nodes = #[] ∧ s.arguments = #[] := by
  induction reachable with
  | ofCapacity capacity => simp [Pool.ofCapacity]
  | @acquire p source _ ih =>
    unfold Pool.acquire
    split
    · exact ih
    · next storage free eq =>
      intro s mem
      exact ih s (eq ▸ List.mem_cons_of_mem storage mem)
  | @release p t _ ih =>
    unfold Pool.release
    split
    · intro s mem
      rcases List.mem_append.1 mem with kept | cleared
      · exact ih s kept
      · rw [List.mem_singleton.1 cleared]
        exact ⟨rfl, rfl⟩
    · exact ih

theorem Reachable.acquire_empty {p : Pool} (reachable : p.Reachable) (source : List Char) :
    ∃ capacity, (p.acquire source).1 = ⟨source, p.generation, ⟨#[], #[], capacity⟩⟩ := by
  unfold Pool.acquire
  split
  · exact ⟨32, rfl⟩
  · next storage free eq =>
    have empty := reachable.free_empty storage (eq ▸ List.mem_cons_self)
    refine ⟨storage.capacity, ?_⟩
    rw [← empty.1, ← empty.2]

theorem Reachable.acquire_alike {p q : Pool} (reachable : p.Reachable) (other : q.Reachable)
    (like : TextLikeness) (source text : List Char) :
    Tree.Alike like ⟨source, p.generation⟩ ⟨text, q.generation⟩ (p.acquire source).1
      (q.acquire text).1 := by
  obtain ⟨capacity, eq⟩ := reachable.acquire_empty source
  obtain ⟨room, same⟩ := other.acquire_empty text
  rw [eq, same]
  exact ⟨rfl, rfl, .nil, .nil⟩

section Parsed

variable {like : TextLikeness} {s r : String} {p q : Pool} {t u : Tree}

theorem keepRoot_alike {parsed reparsed : Except Parser.Stop ParsedExpr} {root top : NodeId}
    (same : Outcome.Agree
      (Expr.Alike (like.spans ⟨s.toList, p.generation⟩ ⟨r.toList, q.generation⟩)) parsed reparsed)
    (reachable : p.Reachable) (other : q.Reachable)
    (left : (p.keep s parsed Tree.store).1 = .ok (t, root))
    (right : (q.keep r reparsed Tree.store).1 = .ok (u, top)) :
    Expr.Alike like (t.view root) (u.view top) := by
  obtain ⟨a, rfl, stored⟩ := keep_eq_ok.1 left
  obtain ⟨b, rfl, restored⟩ := keep_eq_ok.1 right
  cases same with
  | ok same =>
    have kept := Tree.Alike.store same (reachable.acquire_alike other like s.toList r.toList)
    rw [stored, restored] at kept
    exact kept.2.view kept.1

theorem keepItems_alike {parsed reparsed : Except Parser.Stop (List ParsedExpr)} {list run : ArgList}
    (same : Outcome.Agree
      (Expr.AlikeAll (like.spans ⟨s.toList, p.generation⟩ ⟨r.toList, q.generation⟩)) parsed reparsed)
    (reachable : p.Reachable) (other : q.Reachable)
    (left : (p.keep s parsed storeItems).1 = .ok (t, list))
    (right : (q.keep r reparsed storeItems).1 = .ok (u, run)) :
    Option.Rel (Expr.AlikeAll like) (t.viewList? list) (u.viewList? run) := by
  obtain ⟨as, rfl, stored⟩ := keep_eq_ok.1 left
  obtain ⟨bs, rfl, restored⟩ := keep_eq_ok.1 right
  cases same with
  | ok same =>
    have kept := Tree.Alike.storeItems same (reachable.acquire_alike other like s.toList r.toList)
    rw [stored, restored] at kept
    obtain ⟨rfl, kept⟩ := kept
    exact kept.viewList? list

section Tokens

variable {ts us : List Token}
  (tokens : List.Forall₂ (like.spans ⟨s.toList, p.generation⟩ ⟨r.toList, q.generation⟩).Tokens ts us)
  (reachable : p.Reachable) (other : q.Reachable)
include tokens reachable other

theorem parseFilter_alike {root top : NodeId} (left : (p.parseFilter s ts).1 = .ok (t, root))
    (right : (q.parseFilter r us).1 = .ok (u, top)) : Expr.Alike like (t.view root) (u.view top) := by
  rw [parseFilter_eq] at left right
  exact keepRoot_alike (Likeness.filter_agree tokens) reachable other left right

theorem parseCompute_alike {list run : ArgList} (left : (p.parseCompute s ts).1 = .ok (t, list))
    (right : (q.parseCompute r us).1 = .ok (u, run)) :
    Option.Rel (Expr.AlikeAll like) (t.viewList? list) (u.viewList? run) := by
  rw [parseCompute_eq] at left right
  exact keepItems_alike (Likeness.compute_agree tokens) reachable other left right

theorem parseOrderBy_alike {list run : ArgList} (left : (p.parseOrderBy s ts).1 = .ok (t, list))
    (right : (q.parseOrderBy r us).1 = .ok (u, run)) :
    Option.Rel (Expr.AlikeAll like) (t.viewList? list) (u.viewList? run) := by
  rw [parseOrderBy_eq] at left right
  exact keepItems_alike (Likeness.orderBy_agree tokens) reachable other left right

end Tokens

end Parsed

end Pool

end ClauseSql
