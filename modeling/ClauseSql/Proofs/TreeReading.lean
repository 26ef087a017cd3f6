import ClauseSql.Proofs.Sizes
import ClauseSql.Proofs.StoredLikeness

/-! Reading a stored expression back. A tree only grows, so what a handle stands for once it stands for
from then on. As long as the places fit into a handle, the expression behind the handle of a stored
expression is that expression, with its spans replaced by the texts they cover. -/
namespace ClauseSql

mutual
/-- The expression with the texts that its spans cover. -/
def Expr.read (text? : Span → Option (List Char)) : ParsedExpr → Typing.TreeExpr
  | .literal kind span => .literal kind (text? span)
  | .path span => .path (text? span)
  | .not operand => .not (operand.read text?)
  | .binary op left right => .binary op (left.read text?) (right.read text?)
  | .call name args => .call (text? name) (Expr.readAll text? args)
  | .named value name => .named (value.read text?) (text? name)
  | .ordered value descending => .ordered (value.read text?) descending
  | .broken reason => nomatch reason
  | .brokenCall _ reason => nomatch reason
def Expr.readAll (text? : Span → Option (List Char)) : List ParsedExpr → List Typing.TreeExpr
  | [] => []
  | e :: es => e.read text? :: Expr.readAll text? es
end

def Expr.operands {σ β : Type} : Expr σ β → List (Expr σ β)
  | .literal _ _ => []
  | .path _ => []
  | .not operand => [operand]
  | .binary _ left right => [left, right]
  | .call _ args => args
  | .named value _ => [value]
  | .ordered value _ => [value]
  | .broken _ => []
  | .brokenCall _ _ => []

theorem Expr.size_eq_operands {σ β : Type} (e : Expr σ β) :
    e.size = Expr.sizeOfAll e.operands + 1 := by
  cases e <;> simp [Expr.size, Expr.sizeOfAll, Expr.operands]

def handles : Nat := 2 ^ 32

theorem toNat_toUInt32 {n : Nat} (small : n < handles) : n.toUInt32.toNat = n := by
  simp only [handles] at small
  simp only [Nat.toUInt32, UInt32.toNat_ofNat']
  omega

namespace Tree

def held (t : Tree) : Nat := t.storage.arguments.size

@[simp] theorem held_push (t : Tree) (node : Node) : (t.push node).2.held = t.held := rfl

@[simp] theorem count_pushArgs (t : Tree) (ids : List NodeId) : (t.pushArgs ids).2.count = t.count := rfl

@[simp] theorem held_pushArgs (t : Tree) (ids : List NodeId) :
    (t.pushArgs ids).2.held = t.held + ids.length := by
  simp [held, pushArgs, Storage.pushArgs, ← Array.length_toList]

/-- One tree is what becomes of another when more is stored in it. -/
structure Grows (t u : Tree) : Prop where
  origin : u.origin = t.origin
  nodes : t.storage.nodes.toList <+: u.storage.nodes.toList
  arguments : t.storage.arguments.toList <+: u.storage.arguments.toList

theorem Grows.refl (t : Tree) : t.Grows t := ⟨rfl, List.prefix_rfl, List.prefix_rfl⟩

theorem Grows.trans {t u v : Tree} (first : t.Grows u) (second : u.Grows v) : t.Grows v :=
  ⟨second.origin.trans first.origin, first.nodes.trans second.nodes,
    first.arguments.trans second.arguments⟩

theorem grows_push (t : Tree) (node : Node) : t.Grows (t.push node).2 :=
  ⟨rfl, by simp [push, Storage.push], List.prefix_rfl⟩

theorem grows_pushArgs (t : Tree) (ids : List NodeId) : t.Grows (t.pushArgs ids).2 :=
  ⟨rfl, List.prefix_rfl, by simp [pushArgs, Storage.pushArgs]⟩

mutual
theorem store_preserves {P : Tree → Prop} (push : ∀ t node, P t → P (t.push node).2)
    (pushArgs : ∀ t ids, P t → P (t.pushArgs ids).2) {t : Tree} (holds : P t) (e : ParsedExpr) :
    P (t.store e).2 := by
  match e with
  | .literal kind text => exact push _ _ holds
  | .path text => exact push _ _ holds
  | .not operand => exact push _ _ (store_preserves push pushArgs holds operand)
  | .binary op left right =>
    have first := store_preserves push pushArgs holds left
    exact push _ _ (store_preserves push pushArgs first right)
  | .call name args => exact push _ _ (pushArgs _ _ (storeAll_preserves push pushArgs holds args))
  | .named value name => exact push _ _ (store_preserves push pushArgs holds value)
  | .ordered value descending => exact push _ _ (store_preserves push pushArgs holds value)
  | .broken reason => exact nomatch reason
  | .brokenCall _ reason => exact nomatch reason
theorem storeAll_preserves {P : Tree → Prop} (push : ∀ t node, P t → P (t.push node).2)
    (pushArgs : ∀ t ids, P t → P (t.pushArgs ids).2) {t : Tree} (holds : P t)
    (es : List ParsedExpr) : P (t.storeAll es).2 := by
  match es with
  | [] => exact holds
  | e :: es => exact storeAll_preserves push pushArgs (store_preserves push pushArgs holds e) es
end

theorem grows_store (t : Tree) (e : ParsedExpr) : t.Grows (t.store e).2 :=
  store_preserves (fun u node grown => grown.trans (u.grows_push node))
    (fun u ids grown => grown.trans (u.grows_pushArgs ids)) (.refl t) e

theorem grows_storeAll (t : Tree) (es : List ParsedExpr) : t.Grows (t.storeAll es).2 :=
  storeAll_preserves (fun u node grown => grown.trans (u.grows_push node))
    (fun u ids grown => grown.trans (u.grows_pushArgs ids)) (.refl t) es

theorem length_storeAll (t : Tree) (es : List ParsedExpr) :
    (t.storeAll es).1.length = es.length := by
  induction es generalizing t with
  | nil => rfl
  | cons e es ih => exact congrArg (· + 1) (ih (t.store e).2)

mutual
theorem count_store (t : Tree) (e : ParsedExpr) : (t.store e).2.count = t.count + e.size := by
  match e with
  | .literal kind text => exact t.count_push _
  | .path text => exact t.count_push _
  | .not operand => simp only [store, count_push, t.count_store operand, Expr.size, Nat.add_assoc]
  | .binary op left right =>
    simp only [store, count_push, count_store _ right, t.count_store left, Expr.size, Nat.add_assoc]
  | .call name args =>
    simp only [store, count_push, count_pushArgs, t.count_storeAll args, Expr.size, Nat.add_assoc]
  | .named value name => simp only [store, count_push, t.count_store value, Expr.size, Nat.add_assoc]
  | .ordered value descending =>
    simp only [store, count_push, t.count_store value, Expr.size, Nat.add_assoc]
  | .broken reason => exact nomatch reason
  | .brokenCall _ reason => exact nomatch reason
theorem count_storeAll (t : Tree) (es : List ParsedExpr) :
    (t.storeAll es).2.count = t.count + Expr.sizeOfAll es := by
  match es with
  | [] => rfl
  | e :: es =>
    simp only [storeAll, count_storeAll _ es, t.count_store e, Expr.sizeOfAll, Nat.add_assoc]
end

mutual
theorem held_store (t : Tree) (e : ParsedExpr) : (t.store e).2.held + 1 ≤ t.held + e.size := by
  match e with
  | .literal kind text => exact Nat.le_refl _
  | .path text => exact Nat.le_refl _
  | .not operand =>
    have inside := t.held_store operand
    simp only [store, held_push, Expr.size]
    omega
  | .binary op left right =>
    have first := t.held_store left
    have second := held_store (t.store left).2 right
    simp only [store, held_push, Expr.size]
    omega
  | .call name args =>
    have inside := t.held_storeAll args
    have length := t.length_storeAll args
    simp only [store, held_push, held_pushArgs, Expr.size]
    omega
  | .named value name =>
    have inside := t.held_store value
    simp only [store, held_push, Expr.size]
    omega
  | .ordered value descending =>
    have inside := t.held_store value
    simp only [store, held_push, Expr.size]
    omega
  | .broken reason => exact nomatch reason
  | .brokenCall _ reason => exact nomatch reason
theorem held_storeAll (t : Tree) (es : List ParsedExpr) :
    (t.storeAll es).2.held + es.length ≤ t.held + Expr.sizeOfAll es := by
  match es with
  | [] => exact Nat.le_refl _
  | e :: es =>
    have first := t.held_store e
    have rest := held_storeAll (t.store e).2 es
    simp only [storeAll, List.length_cons, Expr.sizeOfAll]
    omega
end

namespace Grows

theorem nodes_push {t u : Tree} {node : Node} (grown : (t.push node).2.Grows u) :
    u.storage.nodes[t.count]? = some node := by
  obtain ⟨later, same⟩ := grown.nodes
  rw [← Array.getElem?_toList, ← same]
  simp [push, Storage.push, count]

theorem args?_pushArgs {t u : Tree} {ids : List NodeId} (grown : (t.pushArgs ids).2.Grows u)
    (room : t.held < handles) (few : ids.length < handles) :
    u.args? (t.pushArgs ids).1 = some ids := by
  obtain ⟨later, same⟩ := grown.arguments
  have start : (t.pushArgs ids).1.start.toNat = t.storage.arguments.toList.length :=
    toNat_toUInt32 room
  have length : (t.pushArgs ids).1.length.toNat = ids.length := toNat_toUInt32 few
  have stored : (t.pushArgs ids).2.storage.arguments.toList =
      t.storage.arguments.toList ++ ids := by
    simp [pushArgs, Storage.pushArgs]
  rw [stored] at same
  have size : u.storage.arguments.size = u.storage.arguments.toList.length := by simp
  rw [args?, size, ← same, start, length, if_pos (by simp)]
  simp only [Array.toList_extract, List.extract_eq_take_drop, ← same]
  simp

end Grows

theorem compact_store {t : Tree} (compact : t.held ≤ t.count) (e : ParsedExpr) :
    (t.store e).2.held ≤ (t.store e).2.count := by
  have held := t.held_store e
  have count := t.count_store e
  omega

def handle (t : Tree) (place : Nat) : NodeId := ⟨place.toUInt32, t.generation⟩

theorem get?_handle {t : Tree} {place : Nat} (small : place < handles) :
    t.get? (t.handle place) = t.storage.nodes[place]? := by
  simp [get?, handle, toNat_toUInt32 small]

theorem Grows.handle {t u : Tree} (grown : t.Grows u) : u.handle = t.handle := by
  funext place
  simp only [Tree.handle]
  rw [show u.generation = t.generation from congrArg Origin.generation grown.origin]

theorem Grows.get?_push {t u : Tree} {node : Node} (grown : (t.push node).2.Grows u)
    (room : t.count < handles) : u.get? (t.push node).1 = some node := by
  have issued : (t.push node).1 = u.handle t.count := by
    rw [grown.handle]
    rfl
  rw [issued, get?_handle room, grown.nodes_push]

/-- The node is what an expression becomes whose operands have the given handles. A call names a run of
arguments that begins at `b` and ends at `c`; other nodes name none. -/
inductive Stands (t : Tree) : ParsedExpr → List NodeId → Node → (b c : Nat) → Prop
  | literal {kind : LiteralKind} {span : Span} {b : Nat} :
      Stands t (.literal kind span) [] (.literal kind span) b b
  | path {span : Span} {b : Nat} : Stands t (.path span) [] (.path span) b b
  | not {operand : ParsedExpr} {id : NodeId} {b : Nat} : Stands t (.not operand) [id] (.not id) b b
  | binary {op : BinaryOperator} {left right : ParsedExpr} {id other : NodeId} {b : Nat} :
      Stands t (.binary op left right) [id, other] (.binary op id other) b b
  | call {name : Span} {args : List ParsedExpr} {ids : List NodeId} {list : ArgList} {b : Nat} :
      t.args? list = some ids → list.start.toNat = b → list.length.toNat = ids.length →
      Stands t (.call name args) ids (.call name list) b (b + ids.length)
  | named {value : ParsedExpr} {name : Span} {id : NodeId} {b : Nat} :
      Stands t (.named value name) [id] (.named id name) b b
  | ordered {value : ParsedExpr} {descending : Bool} {id : NodeId} {b : Nat} :
      Stands t (.ordered value descending) [id] (.ordered id descending) b b

/-- `Holds t es roots n a m b`: the nodes from `n` up to `m` are those of the expressions, one after
the other and operands before what they belong to, with the last node of each at one of the roots. The
arguments from `a` up to `b` are those of the calls among them. -/
inductive Holds (t : Tree) : List ParsedExpr → (roots : List Nat) → (n a m b : Nat) → Prop
  | nil {n a : Nat} : Holds t [] [] n a n a
  | cons {e : ParsedExpr} {es : List ParsedExpr} {below roots : List Nat} {node : Node}
      {n a m b c k d : Nat} :
      Holds t e.operands below n a m b → t.storage.nodes[m]? = some node →
      t.Stands e (below.map t.handle) node b c → Holds t es roots (m + 1) c k d →
      Holds t (e :: es) (m :: roots) n a k d

def Rooted (t : Tree) (e : ParsedExpr) (n a m c : Nat) : Prop :=
  ∃ below node b, Holds t e.operands below n a m b ∧ t.storage.nodes[m]? = some node ∧
    t.Stands e (below.map t.handle) node b c

theorem Rooted.cons {t : Tree} {e : ParsedExpr} {es : List ParsedExpr} {roots : List Nat}
    {n a m c k d : Nat} (first : t.Rooted e n a m c) (others : t.Holds es roots (m + 1) c k d) :
    t.Holds (e :: es) (m :: roots) n a k d := by
  obtain ⟨below, node, b, operands, found, stands⟩ := first
  exact .cons operands found stands others

theorem Rooted.alone {t : Tree} {e : ParsedExpr} {n a m c : Nat} (rooted : t.Rooted e n a m c) :
    t.Holds [e] [m] n a (m + 1) c := rooted.cons .nil

/-- What has been stored is an expression with its root last, and the handle leads there. -/
def Settled (t : Tree) (e : ParsedExpr) (n a : Nat) (stored : NodeId × Tree) : Prop :=
  ∃ m, stored.2.count = m + 1 ∧ stored.1 = t.handle m ∧ t.Rooted e n a m stored.2.held

theorem Grows.settled {t u : Tree} {e : ParsedExpr} {node : Node} {below : List Nat} {n a b : Nat}
    (grown : (t.push node).2.Grows u) (operands : u.Holds e.operands below n a t.count b)
    (stands : u.Stands e (below.map u.handle) node b t.held) : u.Settled e n a (t.push node) := by
  refine ⟨t.count, t.count_push node, ?_, below, node, b, operands, grown.nodes_push, stands⟩
  rw [grown.handle]
  rfl

theorem Settled.over {t : Tree} {e operand : ParsedExpr} {n a : Nat} {stored : NodeId × Tree}
    (settled : t.Settled operand n a stored) (make : NodeId → Node) (single : e.operands = [operand])
    (stands : ∀ id b, t.Stands e [id] (make id) b b)
    (grown : (stored.2.push (make stored.1)).2.Grows t) :
    t.Settled e n a (stored.2.push (make stored.1)) := by
  obtain ⟨m, next, id, rooted⟩ := settled
  have holds : t.Holds e.operands [m] n a stored.2.count stored.2.held := by
    rw [single, next]
    exact rooted.alone
  refine grown.settled holds ?_
  rw [id]
  exact stands _ _

mutual
/-- A stored expression stays where it was put. -/
theorem settled_store {t u : Tree} {e : ParsedExpr} (grown : (t.store e).2.Grows u)
    (room : t.count + e.size ≤ handles) (compact : t.held ≤ t.count) :
    u.Settled e t.count t.held (t.store e) := by
  match e with
  | .literal kind text => exact grown.settled .nil .literal
  | .path text => exact grown.settled .nil .path
  | .not operand =>
    simp only [Expr.size] at room
    have inside := settled_store ((grows_push _ _).trans grown) (by omega) compact
    exact inside.over .not rfl (fun _ _ => .not) grown
  | .binary op left right =>
    simp only [Expr.size] at room
    have count := t.count_store left
    have second : ((t.store left).2.store right).2.Grows u := (grows_push _ _).trans grown
    have first : (t.store left).2.Grows u := (grows_store _ right).trans second
    obtain ⟨m, next, id, rooted⟩ := settled_store first (by omega) compact
    obtain ⟨k, last, other, beside⟩ :=
      settled_store second (by omega) (compact_store compact left)
    rw [next] at beside
    have both := rooted.cons beside.alone
    rw [← last] at both
    refine Grows.settled grown both ?_
    rw [id, other]
    exact .binary
  | .call name args =>
    simp only [Expr.size] at room
    have count := t.count_storeAll args
    have held := t.held_storeAll args
    have length := t.length_storeAll args
    have listed : ((t.storeAll args).2.pushArgs (t.storeAll args).1).2.Grows u :=
      (grows_push _ _).trans grown
    obtain ⟨roots, ids, holds⟩ :=
      holds_storeAll ((grows_pushArgs _ _).trans listed) (by omega) compact
    have place : (t.storeAll args).2.held < handles := by omega
    have few : (t.storeAll args).1.length < handles := by omega
    have stands : u.Stands (.call name args) (t.storeAll args).1
        (.call name ((t.storeAll args).2.pushArgs (t.storeAll args).1).1) (t.storeAll args).2.held
        ((t.storeAll args).2.held + (t.storeAll args).1.length) :=
      .call (listed.args?_pushArgs place few) (toNat_toUInt32 place) (toNat_toUInt32 few)
    rw [← held_pushArgs] at stands
    refine Grows.settled grown holds ?_
    rw [← ids]
    exact stands
  | .named value name =>
    simp only [Expr.size] at room
    have inside := settled_store ((grows_push _ _).trans grown) (by omega) compact
    exact inside.over (.named · name) rfl (fun _ _ => .named) grown
  | .ordered value descending =>
    simp only [Expr.size] at room
    have inside := settled_store ((grows_push _ _).trans grown) (by omega) compact
    exact inside.over (.ordered · descending) rfl (fun _ _ => .ordered) grown
  | .broken reason => exact nomatch reason
  | .brokenCall _ reason => exact nomatch reason
theorem holds_storeAll {t u : Tree} {es : List ParsedExpr} (grown : (t.storeAll es).2.Grows u)
    (room : t.count + Expr.sizeOfAll es ≤ handles) (compact : t.held ≤ t.count) :
    ∃ roots, (t.storeAll es).1 = roots.map u.handle ∧
      u.Holds es roots t.count t.held (t.storeAll es).2.count (t.storeAll es).2.held := by
  match es with
  | [] => exact ⟨[], rfl, .nil⟩
  | e :: es =>
    simp only [Expr.sizeOfAll] at room
    have count := t.count_store e
    have rest : ((t.store e).2.storeAll es).2.Grows u := grown
    obtain ⟨m, next, id, rooted⟩ :=
      settled_store ((grows_storeAll _ es).trans rest) (by omega) compact
    obtain ⟨roots, ids, holds⟩ := holds_storeAll rest (by omega) (compact_store compact e)
    rw [next] at holds
    refine ⟨m :: roots, ?_, rooted.cons holds⟩
    rw [List.map_cons, ← id, ← ids]
    rfl
end

theorem Holds.size {t : Tree} {es : List ParsedExpr} {roots : List Nat} {n a m b : Nat}
    (holds : t.Holds es roots n a m b) : m = n + Expr.sizeOfAll es := by
  induction holds with
  | nil => rfl
  | @cons e _ _ _ _ _ _ _ _ _ _ _ _ _ _ _ below beside =>
    simp only [Expr.sizeOfAll, e.size_eq_operands]
    omega

theorem Stands.viewTo {t : Tree} {e : ParsedExpr} {ids : List NodeId} {id : NodeId} {node : Node}
    {b c depth : Nat} (stands : t.Stands e ids node b c) (found : t.get? id = some node)
    (operands : ids.map (t.viewTo depth) = Expr.readAll t.text? e.operands) :
    t.viewTo (depth + 1) id = e.read t.text? := by
  cases stands with
  | call listed start length =>
    simp only [Tree.viewTo, found, listed, operands, Expr.read, Expr.operands]
  | _ =>
    simp only [Expr.operands, Expr.readAll, List.map_cons, List.cons.injEq] at operands
    simp only [Tree.viewTo, found, operands, Expr.read]

theorem Holds.viewTo {t : Tree} {es : List ParsedExpr} {roots : List Nat} {n a m b : Nat}
    (holds : t.Holds es roots n a m b) (room : m ≤ handles) (depth : Nat)
    (deep : Expr.sizeOfAll es ≤ depth) :
    (roots.map t.handle).map (t.viewTo depth) = Expr.readAll t.text? es := by
  induction holds generalizing depth with
  | nil => rfl
  | @cons e es _ _ _ _ _ m _ _ k _ operands found stands others below beside =>
    have last := others.size
    simp only [Expr.sizeOfAll, e.size_eq_operands] at deep
    obtain ⟨depth, rfl⟩ : ∃ less, depth = less + 1 := ⟨depth - 1, by omega⟩
    rw [← get?_handle (by omega)] at found
    have root := stands.viewTo found (below (by omega) depth (by omega))
    have rest := beside room (depth + 1) (by omega)
    simp only [List.map_cons, Expr.readAll, root, rest]

theorem view_store {t : Tree} {e : ParsedExpr} (empty : t.count = 0) (bare : t.held = 0)
    (room : e.size ≤ handles) :
    (t.store e).2.view (t.store e).1 = e.read (t.store e).2.text? := by
  have count := t.count_store e
  obtain ⟨m, next, id, rooted⟩ := settled_store (.refl (t.store e).2) (by omega) (by omega)
  have deep : Expr.sizeOfAll [e] ≤ (t.store e).2.count := by
    simp only [Expr.sizeOfAll]
    omega
  rw [id]
  exact (List.cons.inj (rooted.alone.viewTo (by omega) _ deep)).1

theorem holds_storeItems {t : Tree} {es : List ParsedExpr} (empty : t.count = 0) (bare : t.held = 0)
    (room : Expr.sizeOfAll es ≤ handles) (many : 2 * es.length ≤ Expr.sizeOfAll es)
    {list : ArgList} {u : Tree} (stored : Pool.storeItems t es = (list, u)) :
    ∃ roots b, u.args? list = some (roots.map u.handle) ∧ u.Holds es roots 0 0 u.count b ∧
      list.start.toNat = b ∧ b + list.length.toNat = u.held ∧ u.held ≤ u.count := by
  have count := t.count_storeAll es
  have held := t.held_storeAll es
  have length := t.length_storeAll es
  have positive : 0 < handles := by decide
  have place : (t.storeAll es).2.held < handles := by
    cases es with
    | nil =>
      simp only [storeAll]
      omega
    | cons e es =>
      simp only [List.length_cons] at held
      omega
  have few : (t.storeAll es).1.length < handles := by omega
  have start : ((t.storeAll es).2.pushArgs (t.storeAll es).1).1.start.toNat =
      (t.storeAll es).2.held := toNat_toUInt32 place
  have number : ((t.storeAll es).2.pushArgs (t.storeAll es).1).1.length.toNat =
      (t.storeAll es).1.length := toNat_toUInt32 few
  have total := held_pushArgs (t.storeAll es).2 (t.storeAll es).1
  have grown := grows_pushArgs (t.storeAll es).2 (t.storeAll es).1
  have listed := Grows.args?_pushArgs (.refl ((t.storeAll es).2.pushArgs (t.storeAll es).1).2) place few
  have pushed : (t.storeAll es).2.pushArgs (t.storeAll es).1 = (list, u) := stored
  have same : u.count = (t.storeAll es).2.count := by
    rw [← count_pushArgs (t.storeAll es).2 (t.storeAll es).1, pushed]
  rw [pushed] at start number total grown listed
  obtain ⟨roots, ids, holds⟩ := holds_storeAll grown (by omega) (by omega)
  rw [empty, bare, ← same] at holds
  rw [ids] at listed
  dsimp only at total
  exact ⟨roots, _, listed, holds, start, by rw [number, total], by omega⟩

theorem viewList?_storeItems {t : Tree} {es : List ParsedExpr} (empty : t.count = 0)
    (bare : t.held = 0) (room : Expr.sizeOfAll es ≤ handles) (many : 2 * es.length ≤ Expr.sizeOfAll es) :
    (Pool.storeItems t es).2.viewList? (Pool.storeItems t es).1 =
      some (Expr.readAll (Pool.storeItems t es).2.text? es) := by
  cases stored : Pool.storeItems t es with
  | mk list u =>
    obtain ⟨roots, b, listed, holds, -⟩ := holds_storeItems empty bare room many stored
    have size := holds.size
    rw [viewList?, listed]
    exact congrArg some (holds.viewTo (by omega) u.count (by omega))

end Tree

theorem Pool.Reachable.acquire_bare {p : Pool} (reachable : p.Reachable) (source : List Char) :
    (p.acquire source).1.count = 0 ∧ (p.acquire source).1.held = 0 ∧
      (p.acquire source).1.origin = ⟨source, p.generation⟩ := by
  obtain ⟨capacity, same⟩ := reachable.acquire_empty source
  rw [same]
  exact ⟨rfl, rfl, rfl⟩

end ClauseSql
