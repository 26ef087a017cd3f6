import ClauseSql.Proofs.Phrases
import ClauseSql.Proofs.Safety
import Mathlib.Data.List.Nodup

/-! The shape of a parsed tree. Its nodes lie in post-order, so that going through the places one after
the other is the same as walking through the tree from its roots. Every node but the roots has one
parent, and the runs of arguments lie behind one another without gaps, each with the handles of what
stands between the parentheses of its call. -/
namespace ClauseSql

/-- Runs of arguments that follow one another from one place to another. -/
def Consecutive : Nat → List ArgList → Nat → Prop
  | start, [], stop => start = stop
  | start, list :: lists, stop =>
    list.start.toNat = start ∧ Consecutive (start + list.length.toNat) lists stop

namespace Consecutive

variable {a b c : Nat} {lists more : List ArgList}

theorem append (first : Consecutive a lists b) (second : Consecutive b more c) :
    Consecutive a (lists ++ more) c := by
  induction lists generalizing a with
  | nil =>
    obtain rfl : a = b := first
    exact second
  | cons list lists ih => exact ⟨first.1, ih first.2⟩

theorem le (runs : Consecutive a lists b) : a ≤ b := by
  induction lists generalizing a with
  | nil => exact Nat.le_of_eq runs
  | cons list lists ih => exact Nat.le_trans (Nat.le_add_right _ _) (ih runs.2)

theorem inside (runs : Consecutive a lists b) {list : ArgList} (member : list ∈ lists) :
    a ≤ list.start.toNat ∧ list.start.toNat + list.length.toNat ≤ b := by
  induction lists generalizing a with
  | nil => cases member
  | cons first lists ih =>
    obtain ⟨rfl, others⟩ := runs
    obtain rfl | later := List.mem_cons.1 member
    · exact ⟨Nat.le_refl _, others.le⟩
    · have found := ih others later
      omega

theorem apart (runs : Consecutive a lists b) :
    lists.Pairwise fun x y => x.start.toNat + x.length.toNat ≤ y.start.toNat := by
  induction lists generalizing a with
  | nil => exact .nil
  | cons first lists ih =>
    obtain ⟨rfl, others⟩ := runs
    exact .cons (fun list member => (others.inside member).1) (ih others)

theorem covers (runs : Consecutive a lists b) {place : Nat} (lower : a ≤ place) (upper : place < b) :
    ∃ list ∈ lists, list.start.toNat ≤ place ∧ place < list.start.toNat + list.length.toNat := by
  induction lists generalizing a with
  | nil =>
    have same : a = b := runs
    omega
  | cons first lists ih =>
    obtain ⟨rfl, others⟩ := runs
    by_cases here : place < first.start.toNat + first.length.toNat
    · exact ⟨first, List.mem_cons_self, lower, here⟩
    · obtain ⟨list, member, found⟩ := ih others (Nat.not_lt.1 here)
      exact ⟨list, List.mem_cons_of_mem _ member, found⟩

end Consecutive

def Node.lists : Node → List ArgList
  | .call _ list => [list]
  | _ => []

theorem Expr.Part.of_operand {σ β : Type} {part operand e : Expr σ β} (member : operand ∈ e.operands)
    (inside : part.Part operand) : part.Part e := by
  cases e with
  | literal | path | broken | brokenCall => cases member
  | not => exact .not (List.mem_singleton.1 member ▸ inside)
  | named => exact .named (List.mem_singleton.1 member ▸ inside)
  | ordered => exact .ordered (List.mem_singleton.1 member ▸ inside)
  | binary op left right =>
    simp only [Expr.operands, List.mem_cons, List.not_mem_nil, or_false] at member
    obtain rfl | rfl := member
    · exact .left inside
    · exact .right inside
  | call name args => exact .argument member inside

namespace Tree

def children (t : Tree) : Node → List NodeId
  | .literal _ _ => []
  | .path _ => []
  | .not operand => [operand]
  | .binary _ left right => [left, right]
  | .call _ list => (t.args? list).getD []
  | .named value _ => [value]
  | .ordered value _ => [value]

def postorderTo (t : Tree) : (depth : Nat) → NodeId → List NodeId
  | 0, _ => []
  | depth + 1, id =>
    match t.get? id with
    | none => []
    | some node => (t.children node).flatMap (t.postorderTo depth) ++ [id]

/-- What is met on a walk from a handle, each node after those that it refers to. -/
def postorder (t : Tree) (id : NodeId) : List NodeId := t.postorderTo t.count id

def places (t : Tree) : List NodeId := (List.range t.count).map t.handle

def references (t : Tree) : List NodeId := t.storage.nodes.toList.flatMap t.children

def lists (t : Tree) : List ArgList := t.storage.nodes.toList.flatMap Node.lists

def nodesAt (t : Tree) (n size : Nat) : List Node := (t.storage.nodes.toList.drop n).take size

theorem nodesAt_split {t : Tree} {n front back : Nat} {node : Node}
    (found : t.storage.nodes[n + front]? = some node) :
    t.nodesAt n (front + 1 + back) =
      t.nodesAt n front ++ node :: t.nodesAt (n + front + 1) back := by
  rw [← Array.getElem?_toList] at found
  obtain ⟨bound, rfl⟩ := List.getElem?_eq_some_iff.1 found
  rw [nodesAt, Nat.add_assoc, List.take_add, List.drop_drop, List.drop_eq_getElem_cons bound,
    Nat.add_comm 1 back]
  rfl

theorem range'_split (n front back : Nat) :
    List.range' n (front + 1 + back) =
      List.range' n front ++ (n + front) :: List.range' (n + front + 1) back := by
  rw [Nat.add_assoc, ← List.range'_append_1, Nat.add_comm 1 back]
  rfl

namespace Stands

variable {t : Tree} {e : ParsedExpr} {ids : List NodeId} {node : Node} {b c : Nat}

theorem children_eq (stands : t.Stands e ids node b c) : t.children node = ids := by
  cases stands with
  | call listed => simp [children, listed]
  | _ => rfl

theorem postorderTo (stands : t.Stands e ids node b c) {id : NodeId} (found : t.get? id = some node)
    (depth : Nat) : t.postorderTo (depth + 1) id = ids.flatMap (t.postorderTo depth) ++ [id] := by
  simp only [Tree.postorderTo, found, stands.children_eq]

theorem consecutive (stands : t.Stands e ids node b c) : Consecutive b node.lists c := by
  cases stands with
  | call listed start length => exact ⟨start, by rw [length]; rfl⟩
  | _ => exact rfl

end Stands

namespace Holds

variable {t : Tree} {es : List ParsedExpr} {roots : List Nat} {n a m b : Nat}

theorem root_lt (holds : t.Holds es roots n a m b) : ∀ root ∈ roots, root < m := by
  induction holds with
  | nil => simp
  | cons _ _ _ others _ beside =>
    have last := others.size
    simp only [List.mem_cons, forall_eq_or_imp]
    exact ⟨by omega, beside⟩

/-- The walk from the roots goes through the places in order. -/
theorem postorderTo (holds : t.Holds es roots n a m b) (room : m ≤ handles) (depth : Nat)
    (deep : Expr.sizeOfAll es ≤ depth) :
    (roots.map t.handle).flatMap (t.postorderTo depth) =
      (List.range' n (Expr.sizeOfAll es)).map t.handle := by
  induction holds generalizing depth with
  | nil => rfl
  | @cons e es _ _ _ _ _ m _ _ k _ operands found stands others below beside =>
    have first := operands.size
    have last := others.size
    simp only [Expr.sizeOfAll, e.size_eq_operands] at deep
    obtain ⟨depth, rfl⟩ : ∃ less, depth = less + 1 := ⟨depth - 1, by omega⟩
    rw [← get?_handle (by omega)] at found
    have root := stands.postorderTo found depth
    rw [below (by omega) depth (by omega)] at root
    rw [List.map_cons, List.flatMap_cons, root, beside room (depth + 1) (by omega)]
    simp only [Expr.sizeOfAll, e.size_eq_operands, range'_split, List.map_append, List.map_cons,
      List.append_assoc, List.cons_append, List.nil_append, ← first]

theorem references (holds : t.Holds es roots n a m b) :
    (roots.map t.handle ++ (t.nodesAt n (Expr.sizeOfAll es)).flatMap t.children).Perm
      ((List.range' n (Expr.sizeOfAll es)).map t.handle) := by
  induction holds with
  | nil => exact .refl _
  | @cons e es under roots node n _ m _ _ k _ operands found stands others below beside =>
    have first := operands.size
    rw [first] at found
    simp only [Expr.sizeOfAll, e.size_eq_operands]
    rw [nodesAt_split found, range'_split, ← first, List.flatMap_append, List.flatMap_cons,
      stands.children_eq, List.map_cons, List.map_append, List.map_cons]
    generalize (t.nodesAt n _).flatMap t.children = inner at below ⊢
    generalize (t.nodesAt (m + 1) _).flatMap t.children = outer at beside ⊢
    refine .trans (List.perm_iff_count.2 fun id => ?_) (below.append (beside.cons (t.handle m)))
    simp only [List.count_append, List.count_cons]
    omega

theorem consecutive (holds : t.Holds es roots n a m b) :
    Consecutive a ((t.nodesAt n (Expr.sizeOfAll es)).flatMap Node.lists) b := by
  induction holds with
  | nil => exact rfl
  | @cons e es _ _ node n _ m _ _ k _ operands found stands others below beside =>
    have first := operands.size
    rw [first] at found
    simp only [Expr.sizeOfAll, e.size_eq_operands]
    rw [nodesAt_split found, ← first, List.flatMap_append, List.flatMap_cons]
    exact below.append (stands.consecutive.append beside)

theorem part (holds : t.Holds es roots n a m b) {place : Nat} (lower : n ≤ place)
    (upper : place < m) :
    ∃ e ∈ es, ∃ part, Expr.Part part e ∧ ∃ n a b, t.Rooted part n a place b := by
  induction holds with
  | nil => omega
  | @cons e es _ _ node n a m _ c k _ operands found stands others below beside =>
    rcases Nat.lt_trichotomy place m with before | rfl | behind
    · obtain ⟨operand, member, part, inside, rooted⟩ := below lower before
      exact ⟨e, List.mem_cons_self, part, .of_operand member inside, rooted⟩
    · exact ⟨e, List.mem_cons_self, e, .whole, n, a, c, _, node, _, operands, found, stands⟩
    · obtain ⟨f, member, found⟩ := beside behind upper
      exact ⟨f, List.mem_cons_of_mem _ member, found⟩

end Holds

/-- A tree that holds a clause and nothing else. The items of compute and order clauses are its roots
and have a run of arguments of their own. -/
structure PostOrdered (t : Tree) (clause : Clause) (ts : List Token) (roots : List NodeId)
    (items : Option ArgList) : Prop where
  /-- No two places have the same handle. -/
  distinct : t.count ≤ 2 ^ 32 ∧ t.places.Nodup
  /-- The walk from the roots meets the places in order. -/
  listing : roots.flatMap t.postorder = t.places
  below : ∀ (place : Nat) node, t.storage.nodes[place]? = some node →
    ∀ id ∈ t.children node, id.index.toNat < place
  /-- No node refers to a root, and one node refers to each other place, once. -/
  once : (roots ++ t.references).Perm t.places
  generation : ∀ id ∈ roots ++ t.references ++ t.storage.arguments.toList,
    id.generation = t.generation
  inside : ∀ list ∈ t.lists ++ items.toList,
    list.start.toNat + list.length.toNat ≤ t.storage.arguments.size
  apart : (t.lists ++ items.toList).Pairwise fun x y =>
    x.start.toNat + x.length.toNat ≤ y.start.toNat
  few : t.storage.arguments.size ≤ t.count
  /-- The run of a call holds what stands in the source between its parentheses, in order. -/
  calls : ∀ (place : Nat) name list, t.storage.nodes[place]? = some (Node.call name list) →
    ∃ fn opening us closing args, fn :: opening :: (us ++ [closing]) <:+: ts ∧
      fn.kind = .functionName ∧ fn.span = name ∧ opening.kind = .openParen ∧
      closing.kind = .closeParen ∧ Grammar.SpellsAll us args ∧
      t.viewList? list = some (Expr.readAll t.text? args)
  /-- The roots are the items of the source, in order, and the run of the items holds the roots. -/
  whole : ∃ body last es, ts = body ++ [last] ∧ last.kind = .eof ∧
    Grammar.SpellsItems clause body es ∧ roots.map t.view = Expr.readAll t.text? es ∧
    ∀ list ∈ items, t.args? list = some roots

namespace Holds

variable {t : Tree} {es : List ParsedExpr} {roots : List Nat} {n a m b : Nat}

theorem children_below (holds : t.Holds es roots 0 a m b) (room : m ≤ handles) {place : Nat}
    {node : Node} (found : t.storage.nodes[place]? = some node) (bound : place < m) :
    ∀ id ∈ t.children node, id.index.toNat < place := by
  obtain ⟨_, _, _, _, _, _, _, under, other, _, operands, same, stands⟩ :=
    holds.part (Nat.zero_le place) bound
  obtain rfl : node = other := Option.some.inj (found.symm.trans same)
  rw [stands.children_eq]
  intro id member
  obtain ⟨root, rooted, rfl⟩ := List.mem_map.1 member
  have less := operands.root_lt root rooted
  have small : root.toUInt32.toNat = root := toNat_toUInt32 (by omega)
  exact small.symm ▸ less

theorem call_args (holds : t.Holds es roots 0 a m b) (room : m ≤ handles) {place : Nat}
    {name : Span} {list : ArgList} (found : t.storage.nodes[place]? = some (.call name list))
    (bound : place < m) {depth : Nat} (deep : m ≤ depth) :
    ∃ e ∈ es, ∃ args, Expr.Part (.call name args) e ∧
      ∃ ids, t.args? list = some ids ∧ ids.map (t.viewTo depth) = Expr.readAll t.text? args := by
  obtain ⟨e, member, part, inside, _, _, _, under, other, _, operands, same, stands⟩ :=
    holds.part (Nat.zero_le place) bound
  obtain rfl : .call name list = other := Option.some.inj (found.symm.trans same)
  have size := operands.size
  have seen := operands.viewTo (by omega) depth (by omega)
  generalize under.map t.handle = ids at stands seen
  cases stands with
  | @call _ args _ _ _ listed => exact ⟨e, member, args, inside, ids, listed, seen⟩

end Holds

theorem nodup_places {t : Tree} (room : t.count ≤ handles) : t.places.Nodup := by
  refine List.Nodup.map_on (fun i below j under same => ?_) List.nodup_range
  have equal : i.toUInt32.toNat = j.toUInt32.toNat :=
    congrArg (fun id : NodeId => id.index.toNat) same
  rw [List.mem_range] at below under
  rwa [toNat_toUInt32 (by omega), toNat_toUInt32 (by omega)] at equal

theorem mem_args {t : Tree} {lists : List ArgList} {id : NodeId}
    (runs : Consecutive 0 lists t.held) (member : id ∈ t.storage.arguments.toList) :
    ∃ list ∈ lists, ∃ ids, t.args? list = some ids ∧ id ∈ ids := by
  obtain ⟨place, bound, rfl⟩ := List.getElem_of_mem member
  rw [Array.length_toList] at bound
  obtain ⟨list, listed, lower, upper⟩ := runs.covers (Nat.zero_le place) bound
  refine ⟨list, listed, _, if_pos (runs.inside listed).2, ?_⟩
  rw [Array.toList_extract, List.extract_eq_take_drop]
  obtain ⟨offset, rfl⟩ := Nat.exists_eq_add_of_le lower
  rw [List.mem_iff_getElem?]
  exact ⟨offset, by simp [List.getElem?_take, List.getElem?_drop]; omega⟩

theorem Holds.postOrdered {t : Tree} {clause : Clause} {body : List Token} {last : Token}
    {es : List ParsedExpr} {roots : List Nat} {b : Nat} {items : Option ArgList}
    (holds : t.Holds es roots 0 0 t.count b) (room : t.count ≤ handles)
    (compact : t.held ≤ t.count) (ends : last.kind = .eof)
    (spelled : Grammar.SpellsItems clause body es) (run : Consecutive b items.toList t.held)
    (listed : ∀ list ∈ items, t.args? list = some (roots.map t.handle)) :
    t.PostOrdered clause (body ++ [last]) (roots.map t.handle) items := by
  have size : Expr.sizeOfAll es = t.count := by
    have size := holds.size
    omega
  have nodes : t.nodesAt 0 (Expr.sizeOfAll es) = t.storage.nodes.toList := by
    rw [nodesAt, size, List.drop_zero, count, ← Array.length_toList, List.take_length]
  have once := holds.references
  have runs := holds.consecutive.append run
  rw [nodes, size, ← List.range_eq_range'] at once
  rw [nodes] at runs
  have bound {place : Nat} {node : Node} (found : t.storage.nodes[place]? = some node) :
      place < t.count := (Array.getElem?_eq_some_iff.1 found).1
  have known {id : NodeId} (member : id ∈ roots.map t.handle ++ t.references) :
      id.generation = t.generation := by
    obtain ⟨place, -, rfl⟩ := List.mem_map.1 (once.mem_iff.1 member)
    rfl
  refine ⟨⟨room, nodup_places room⟩, ?_, fun _ _ found => holds.children_below room found (bound found),
    once, ?_, fun _ member => (runs.inside member).2, runs.apart, compact, ?_, ?_⟩
  · have walk := holds.postorderTo room t.count (by omega)
    rwa [size, ← List.range_eq_range'] at walk
  · intro id member
    obtain reference | argument := List.mem_append.1 member
    · exact known reference
    · obtain ⟨list, member, ids, found, inside⟩ := mem_args runs argument
      obtain called | item := List.mem_append.1 member
      · obtain ⟨node, stored, named⟩ := List.mem_flatMap.1 called
        refine known (List.mem_append_right _ (List.mem_flatMap.2 ⟨node, stored, ?_⟩))
        cases node with
        | call name other =>
          obtain rfl := List.mem_singleton.1 named
          simpa [children, found] using inside
        | _ => cases named
      · have same := listed list (Option.mem_toList.1 item)
        obtain rfl := Option.some.inj (found.symm.trans same)
        exact known (List.mem_append_left _ inside)
  · intro place name list found
    obtain ⟨e, member, args, inside, ids, same, seen⟩ :=
      holds.call_args room found (bound found) (Nat.le_refl _)
    obtain ⟨fn, opening, us, closing, within, calls, span, opens, closes, phrases⟩ :=
      spelled.call_tokens member inside
    refine ⟨fn, opening, us, closing, args, within.trans (List.prefix_append _ _).isInfix, calls,
      span, opens, closes, phrases, ?_⟩
    rw [viewList?, same]
    exact congrArg some seen
  · exact ⟨body, last, es, rfl, ends, spelled, holds.viewTo room t.count (by omega), listed⟩

end Tree

namespace Pool

section Kept

variable {source : String} {ts : List Token} {p : Pool} {t : Tree} (reachable : p.Reachable)
  (lexed : Token.tokenize source = .ok ts) (short : Text.byteLength source.toList < handles)
include reachable lexed short

theorem parseFilter_postOrdered {root : NodeId}
    (parsed : (p.parseFilter source ts).1 = .ok (t, root)) :
    t.PostOrdered .filter ts [root] none := by
  rw [parseFilter_eq] at parsed
  obtain ⟨e, built, stored⟩ := keep_eq_ok.1 parsed
  obtain ⟨empty, bare, -⟩ := reachable.acquire_bare source.toList
  have worth := Lexing.worth_lt_handles lexed short
  have size := Parser.filter_size built
  have count := Tree.count_store (p.acquire source.toList).1 e
  have compact := Tree.compact_store (by omega : (p.acquire source.toList).1.held ≤ _) e
  obtain ⟨m, next, id, rooted⟩ := Tree.settled_store
    (.refl ((p.acquire source.toList).1.store e).2) (by omega) (by omega)
  rw [stored] at count compact next id rooted
  rw [empty, bare] at rooted
  have items : Parser.clause .filter ts = .ok [e] := by simp [Parser.clause, built, Except.map]
  obtain ⟨body, last, rfl, ends, spelled⟩ := Grammar.clause_spelling lexed items
  have holds := rooted.alone
  dsimp only at next id holds compact
  rw [← next] at holds
  rw [id]
  exact holds.postOrdered (by dsimp only at count; omega) compact ends spelled rfl nofun

theorem keepItems_postOrdered {clause : Clause} {parsed : Except Parser.Stop (List ParsedExpr)}
    {list : ArgList} (read : Parser.clause clause ts = parsed)
    (sized : ∀ es, parsed = .ok es →
      2 * es.length ≤ Expr.sizeOfAll es ∧ Expr.sizeOfAll es ≤ Parser.worth ts + 1)
    (kept : (p.keep source parsed storeItems).1 = .ok (t, list)) :
    ∃ roots, t.args? list = some roots ∧ t.PostOrdered clause ts roots (some list) := by
  obtain ⟨es, rfl, stored⟩ := keep_eq_ok.1 kept
  obtain ⟨many, size⟩ := sized es rfl
  obtain ⟨empty, bare, -⟩ := reachable.acquire_bare source.toList
  have room : Expr.sizeOfAll es ≤ handles := size.trans (Lexing.worth_lt_handles lexed short)
  obtain ⟨roots, b, listed, holds, start, stop, compact⟩ :=
    Tree.holds_storeItems empty bare room many stored
  obtain ⟨body, last, rfl, ends, spelled⟩ := Grammar.clause_spelling lexed read
  refine ⟨_, listed, holds.postOrdered ?_ compact ends spelled ⟨start, stop⟩ ?_⟩
  · have size := holds.size
    omega
  · rintro _ ⟨⟩
    exact listed

theorem parseCompute_postOrdered {list : ArgList}
    (parsed : (p.parseCompute source ts).1 = .ok (t, list)) :
    ∃ roots, t.args? list = some roots ∧ t.PostOrdered .compute ts roots (some list) := by
  rw [parseCompute_eq] at parsed
  exact keepItems_postOrdered reachable lexed short rfl (fun _ => Parser.compute_size) parsed

theorem parseOrderBy_postOrdered {list : ArgList}
    (parsed : (p.parseOrderBy source ts).1 = .ok (t, list)) :
    ∃ roots, t.args? list = some roots ∧ t.PostOrdered .orderBy ts roots (some list) := by
  rw [parseOrderBy_eq] at parsed
  exact keepItems_postOrdered reachable lexed short rfl (fun _ => Parser.orderBy_size) parsed

end Kept

end Pool

/-- A parsed clause lies in its tree in post-order, whatever the pool has been used for before. -/
theorem trees_lie_in_post_order {source : String} (short : Text.byteLength source.toList < 2 ^ 32)
    {ts : List Token} (lexed : Token.tokenize source = .ok ts) {p : Pool}
    (reachable : p.Reachable) :
    (∀ t root, (p.parseFilter source ts).1 = .ok (t, root) →
      t.PostOrdered .filter ts [root] none) ∧
    (∀ t list, (p.parseCompute source ts).1 = .ok (t, list) →
      ∃ roots, t.args? list = some roots ∧ t.PostOrdered .compute ts roots (some list)) ∧
    ∀ t list, (p.parseOrderBy source ts).1 = .ok (t, list) →
      ∃ roots, t.args? list = some roots ∧ t.PostOrdered .orderBy ts roots (some list) :=
  ⟨fun _ _ => Pool.parseFilter_postOrdered reachable lexed short,
    fun _ _ => Pool.parseCompute_postOrdered reachable lexed short,
    fun _ _ => Pool.parseOrderBy_postOrdered reachable lexed short⟩

theorem trees_lie_in_post_order_joined_trim :
    Text.byteLength "concat(now(),trim(a)) as b".toList < 2 ^ 32 ∧ Pool.default.Reachable ∧
    ∃ ts t list, Token.tokenize "concat(now(),trim(a)) as b" = .ok ts ∧
      (Pool.default.parseCompute "concat(now(),trim(a)) as b" ts).1 = .ok (t, list) ∧
      t.storage.nodes = #[.call ⟨7, 10⟩ ⟨0, 0⟩, .path ⟨18, 19⟩, .call ⟨13, 17⟩ ⟨0, 1⟩,
        .call ⟨0, 6⟩ ⟨1, 2⟩, .named ⟨3, 1⟩ ⟨25, 26⟩] ∧
      t.args? list = some [⟨4, 1⟩] ∧ t.PostOrdered .compute ts [⟨4, 1⟩] (some list) := by
  let ts : List Token :=
    [⟨.functionName, 0, "concat".toList⟩, ⟨.openParen, 6, ['(']⟩, ⟨.functionName, 7, "now".toList⟩,
      ⟨.openParen, 10, ['(']⟩, ⟨.closeParen, 11, [')']⟩, ⟨.comma, 12, [',']⟩,
      ⟨.functionName, 13, "trim".toList⟩, ⟨.openParen, 17, ['(']⟩, ⟨.identifier, 18, ['a']⟩,
      ⟨.closeParen, 19, [')']⟩, ⟨.closeParen, 20, [')']⟩, ⟨.asWord, 22, "as".toList⟩,
      ⟨.identifier, 25, ['b']⟩, ⟨.eof, 26, []⟩]
  let tree : Tree := ⟨"concat(now(),trim(a)) as b".toList, 1,
    ⟨#[.call ⟨7, 10⟩ ⟨0, 0⟩, .path ⟨18, 19⟩, .call ⟨13, 17⟩ ⟨0, 1⟩, .call ⟨0, 6⟩ ⟨1, 2⟩,
      .named ⟨3, 1⟩ ⟨25, 26⟩], #[⟨1, 1⟩, ⟨0, 1⟩, ⟨2, 1⟩, ⟨4, 1⟩], 32⟩⟩
  have lexed : Token.tokenize "concat(now(),trim(a)) as b" = .ok ts := by decide +kernel
  have parsed : (Pool.default.parseCompute "concat(now(),trim(a)) as b" ts).1 =
      .ok (tree, ⟨3, 1⟩) := by decide +kernel
  have short : Text.byteLength "concat(now(),trim(a)) as b".toList < 2 ^ 32 := by decide
  have reachable : Pool.default.Reachable := .ofCapacity Pool.defaultCapacity
  have listed : tree.args? ⟨3, 1⟩ = some [⟨4, 1⟩] := by decide +kernel
  obtain ⟨roots, same, ordered⟩ :=
    (trees_lie_in_post_order short lexed reachable).2.1 tree ⟨3, 1⟩ parsed
  obtain rfl : [⟨4, 1⟩] = roots := Option.some.inj (listed.symm.trans same)
  exact ⟨short, reachable, ts, tree, ⟨3, 1⟩, lexed, parsed, rfl, listed, ordered⟩

end ClauseSql
