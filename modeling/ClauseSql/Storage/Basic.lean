import ClauseSql.Expr.Basic

/-! Expressions in flat storage. Nodes refer to one another by handles, and a handle carries the
generation of the tree that issued it, so that no other tree accepts it. -/
namespace ClauseSql

structure NodeId where
  index : UInt32
  generation : UInt32
  deriving DecidableEq, Repr

structure ArgList where
  start : UInt32
  length : UInt32
  deriving DecidableEq, Repr

inductive Node where
  | literal (kind : LiteralKind) (text : Span)
  | path (text : Span)
  | not (operand : NodeId)
  | binary (op : BinaryOperator) (left right : NodeId)
  | call (name : Span) (args : ArgList)
  | named (value : NodeId) (name : Span)
  | ordered (value : NodeId) (descending : Bool)
  deriving DecidableEq, Repr

/-- The vectors behind a tree, and how many nodes they can take before they have to grow. -/
structure Storage where
  nodes : Array Node
  arguments : Array NodeId
  capacity : Nat
  deriving DecidableEq, Repr

namespace Storage

def fresh : Storage := ⟨#[], #[], 32⟩

def push (s : Storage) (node : Node) : Storage :=
  let capacity := if s.nodes.size < s.capacity then s.capacity else 2 * s.capacity
  { s with nodes := s.nodes.push node, capacity }

def pushArgs (s : Storage) (ids : List NodeId) : Storage :=
  { s with arguments := s.arguments ++ ids }

def clear (s : Storage) : Storage := ⟨#[], #[], s.capacity⟩

end Storage

structure Tree where
  source : List Char
  generation : UInt32
  storage : Storage
  deriving DecidableEq, Repr

namespace Tree

def count (t : Tree) : Nat := t.storage.nodes.size

def push (t : Tree) (node : Node) : NodeId × Tree :=
  (⟨t.count.toUInt32, t.generation⟩, { t with storage := t.storage.push node })

def pushArgs (t : Tree) (ids : List NodeId) : ArgList × Tree :=
  (⟨t.storage.arguments.size.toUInt32, ids.length.toUInt32⟩,
    { t with storage := t.storage.pushArgs ids })

def get? (t : Tree) (id : NodeId) : Option Node :=
  if id.generation = t.generation then t.storage.nodes[id.index.toNat]? else none

def args? (t : Tree) (list : ArgList) : Option (List NodeId) :=
  let start := list.start.toNat
  let stop := start + list.length.toNat
  if stop ≤ t.storage.arguments.size then some (t.storage.arguments.extract start stop).toList
  else none

def text? (t : Tree) (span : Span) : Option (List Char) :=
  Text.slice? t.source span.start span.stop

def viewTo (t : Tree) : (depth : Nat) → NodeId → Expr (Option (List Char)) Unit
  | 0, _ => .broken ()
  | depth + 1, id =>
    match t.get? id with
    | none => .broken ()
    | some (.literal kind text) => .literal kind (t.text? text)
    | some (.path text) => .path (t.text? text)
    | some (.not operand) => .not (t.viewTo depth operand)
    | some (.binary op left right) => .binary op (t.viewTo depth left) (t.viewTo depth right)
    | some (.call name args) =>
      match t.args? args with
      | none => .brokenCall (t.text? name) ()
      | some ids => .call (t.text? name) (ids.map (t.viewTo depth))
    | some (.named value name) => .named (t.viewTo depth value) (t.text? name)
    | some (.ordered value descending) => .ordered (t.viewTo depth value) descending

/-- The expression behind a handle. A chain of references has no more steps than the tree has
nodes, unless it never ends. -/
def view (t : Tree) (id : NodeId) : Expr (Option (List Char)) Unit := t.viewTo t.count id

def viewList? (t : Tree) (list : ArgList) : Option (List (Expr (Option (List Char)) Unit)) :=
  (t.args? list).map fun ids => ids.map t.view

@[simp] theorem count_push (t : Tree) (node : Node) : (t.push node).2.count = t.count + 1 := by
  simp [push, count, Storage.push]

end Tree

end ClauseSql
