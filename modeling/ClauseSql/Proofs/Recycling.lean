import ClauseSql.Proofs.Isolation
import ClauseSql.Proofs.PoolHistory

/-! Trees on their way back. Every request whose source has tokens takes one tree from the pool and gives
it back, however it ends, and the pool keeps its storage unless the tree has outgrown it. Storage starts
with room for 32 nodes and doubles when it is full, so whether it is kept depends on the nodes of the
last tree alone, not on the trees that were there before. -/
namespace ClauseSql

/-- Storage has grown by doubling, and not further than its nodes have made it, except that it may have
been taken over with as much room as a pool keeps. -/
structure Storage.Doubled (s : Storage) : Prop where
  doubled : ∃ n, s.capacity = 32 * 2 ^ n
  enough : s.nodes.size ≤ s.capacity
  needed : s.capacity ≤ Pool.retainedNodes ∨ s.capacity < 2 * s.nodes.size

namespace Storage

theorem doubled_fresh : fresh.Doubled where
  doubled := ⟨0, rfl⟩
  enough := Nat.zero_le _
  needed := .inl (by decide)

theorem Doubled.push {s : Storage} (before : s.Doubled) (node : Node) : (s.push node).Doubled := by
  obtain ⟨⟨n, doubled⟩, enough, needed⟩ := before
  have size : (s.push node).nodes.size = s.nodes.size + 1 := by simp [Storage.push]
  by_cases room : s.nodes.size < s.capacity
  · have same : (s.push node).capacity = s.capacity := if_pos room
    refine ⟨⟨n, same.trans doubled⟩, ?_, ?_⟩ <;> omega
  · have twice : (s.push node).capacity = 2 * s.capacity := if_neg room
    have positive : 0 < 2 ^ n := Nat.two_pow_pos n
    refine ⟨⟨n + 1, ?_⟩, ?_, ?_⟩
    · rw [twice, doubled, pow_succ]
      omega
    · omega
    · omega

theorem Doubled.pushArgs {s : Storage} (before : s.Doubled) (ids : List NodeId) :
    (s.pushArgs ids).Doubled := ⟨before.doubled, before.enough, before.needed⟩

theorem Doubled.clear {s : Storage} (before : s.Doubled) (small : s.capacity ≤ Pool.retainedNodes) :
    s.clear.Doubled := ⟨before.doubled, Nat.zero_le _, .inl small⟩

theorem Doubled.capacity_le_iff {s : Storage} (grown : s.Doubled) :
    s.capacity ≤ Pool.retainedNodes ↔ s.nodes.size ≤ Pool.retainedNodes := by
  obtain ⟨⟨n, doubled⟩, enough, needed⟩ := grown
  simp only [Pool.retainedNodes] at needed ⊢
  constructor
  · intro small
    omega
  · intro few
    by_contra large
    have long : 7 < n := by
      by_contra short
      have bound : 2 ^ n ≤ 2 ^ 7 := Nat.pow_le_pow_right (by decide) (by omega)
      omega
    have bound : 2 ^ 8 ≤ 2 ^ n := Nat.pow_le_pow_right (by decide) long
    omega

end Storage

namespace Tree

theorem doubled_store {t : Tree} (before : t.storage.Doubled) (e : ParsedExpr) :
    (t.store e).2.storage.Doubled :=
  @store_preserves (·.storage.Doubled) (fun _ node grown => grown.push node)
    (fun _ ids grown => grown.pushArgs ids) t before e

theorem doubled_storeAll {t : Tree} (before : t.storage.Doubled) (es : List ParsedExpr) :
    (t.storeAll es).2.storage.Doubled :=
  @storeAll_preserves (·.storage.Doubled) (fun _ node grown => grown.push node)
    (fun _ ids grown => grown.pushArgs ids) t before es

end Tree

namespace Pool

/-- The tree that is taken for a source, with all that a parser has stored in it, whether or not the parser
has come to an end. -/
def filled {α ρ : Type} (p : Pool) (source : String) (parsed : Except Parser.Stop α)
    (store : Tree → α → ρ × Tree) : Tree :=
  let tree := (p.acquire source.toList).1
  match parsed with
  | .ok built => (store tree built).2
  | .error stop => (tree.storeAll stop.built).2

theorem doubled_filled {α ρ : Type} {p : Pool} {source : String}
    (bare : (p.acquire source.toList).1.storage.Doubled) (parsed : Except Parser.Stop α)
    {store : Tree → α → ρ × Tree}
    (stored : ∀ t built, t.storage.Doubled → (store t built).2.storage.Doubled) :
    (p.filled source parsed store).storage.Doubled := by
  cases parsed with
  | ok built => exact stored _ built bare
  | error stop => exact Tree.doubled_storeAll bare stop.built

structure Settled (p : Pool) : Prop where
  single : p.idle ≤ 1
  kept : ∀ s ∈ p.free, s.Doubled

theorem settled_ofCapacity (capacity : Nat) : (ofCapacity capacity).Settled :=
  ⟨Nat.zero_le 1, by simp [ofCapacity]⟩

theorem Settled.acquire {p : Pool} (settled : p.Settled) (source : List Char) :
    (p.acquire source).1.storage.Doubled ∧ (p.acquire source).2.free = [] := by
  unfold Pool.acquire
  split
  · next none => exact ⟨Storage.doubled_fresh, none⟩
  · next storage free waiting =>
    have single := settled.single
    rw [idle, waiting, List.length_cons] at single
    have last : free.length = 0 := by omega
    exact ⟨settled.kept storage (waiting ▸ List.mem_cons_self), List.eq_nil_of_length_eq_zero last⟩

theorem settled_release {p : Pool} (none : p.free = []) {t : Tree} (grown : t.storage.Doubled) :
    (p.release t).Settled := by
  unfold release
  rw [none]
  split
  · next fits =>
    refine ⟨Nat.le_refl 1, ?_⟩
    intro s member
    rw [List.mem_singleton.1 member]
    exact grown.clear fits.1
  · exact ⟨by simp [idle, none], by simp [none]⟩

theorem idle_release_of_doubled {p : Pool} (none : p.free = []) {t : Tree}
    (grown : t.storage.Doubled) :
    (p.release t).idle = if t.count ≤ retainedNodes ∧ 0 < p.capacity then 1 else 0 := by
  have idle : p.idle = 0 := by rw [Pool.idle, none, List.length_nil]
  have kept : t.storage.capacity ≤ retainedNodes ↔ t.count ≤ retainedNodes := grown.capacity_le_iff
  simp only [idle_release, kept, idle, Nat.zero_add]

end Pool

namespace Compiler

/-- However a clause ends, the tree that was taken for it is given back once. -/
theorem model_pool {α β ρ : Type} {parse : Pool → String → List Token → ParseResult ρ × Pool}
    {parsed : List Token → Except Parser.Stop β} {store : Tree → β → ρ × Tree}
    {type : Pool → Entity → Tree → ρ → Except Failure α × Pool} {entity : Entity} (source : String)
    (p : Pool) (kept : ∀ ts, parse p source ts = p.keep source (parsed ts) store)
    (released : ∀ p t root, (type p entity t root).2 = p.release t) :
    (model parse type source entity p).2 =
      match Token.tokenize source with
      | .error _ => p
      | .ok ts => (p.acquire source.toList).2.release (p.filled source (parsed ts) store) := by
  unfold model
  cases Token.tokenize source with
  | error => rfl
  | ok ts =>
    simp only [kept, Pool.keep, Pool.filled]
    cases parsed ts with
    | error => rfl
    | ok built => exact released _ _ _

end Compiler

namespace Request

def tree (r : Request) (p : Pool) (ts : List Token) : Tree :=
  match r.clause with
  | .filter => p.filled r.source (Parser.filter ts) Tree.store
  | .compute => p.filled r.source (Parser.compute ts) Pool.storeItems
  | .orderBy => p.filled r.source (Parser.orderBy ts) Pool.storeItems

theorem run_pool (r : Request) (p : Pool) :
    (r.run p).2 =
      match Token.tokenize r.source with
      | .error _ => p
      | .ok ts => (p.acquire r.source.toList).2.release (r.tree p ts) := by
  obtain ⟨clause, dialect, source, entity⟩ := r
  -- SQL is generated without the pool.
  cases clause with
  | filter =>
    have released (p : Pool) (t : Tree) (root : NodeId) :
        (p.typeFilter entity t root).2 = p.release t := rfl
    cases dialect <;> exact Compiler.model_pool source p (p.parseFilter_eq source) released
  | compute =>
    have released (p : Pool) (t : Tree) (list : ArgList) :
        (p.typeCompute entity t list).2 = p.release t := rfl
    cases dialect <;> exact Compiler.model_pool source p (p.parseCompute_eq source) released
  | orderBy =>
    have released (p : Pool) (t : Tree) (list : ArgList) :
        (p.typeOrderBy entity t list).2 = p.release t := rfl
    cases dialect <;> exact Compiler.model_pool source p (p.parseOrderBy_eq source) released

theorem doubled_tree {p : Pool} (settled : p.Settled) (r : Request) (ts : List Token) :
    (r.tree p ts).storage.Doubled := by
  have bare := (settled.acquire r.source.toList).1
  have items : ∀ t built, t.storage.Doubled → (Pool.storeItems t built).2.storage.Doubled :=
    fun t built grown => (Tree.doubled_storeAll grown built).pushArgs _
  unfold tree
  cases r.clause with
  | filter => exact Pool.doubled_filled bare _ fun _ e grown => Tree.doubled_store grown e
  | compute => exact Pool.doubled_filled bare _ items
  | orderBy => exact Pool.doubled_filled bare _ items

theorem run_settled {p : Pool} (settled : p.Settled) (r : Request) : (r.run p).2.Settled := by
  rw [run_pool]
  cases Token.tokenize r.source with
  | error => exact settled
  | ok ts => exact Pool.settled_release (settled.acquire r.source.toList).2 (r.doubled_tree settled ts)

theorem run_capacity (r : Request) (p : Pool) : (r.run p).2.capacity = p.capacity := by
  rw [run_pool]
  cases Token.tokenize r.source with
  | error => rfl
  | ok ts =>
    obtain ⟨-, -, capacity, -⟩ := p.acquire_counts r.source.toList
    rw [Pool.capacity_release, capacity]

end Request

theorem Pool.Settled.serve {p : Pool} (settled : p.Settled) (requests : List Request) :
    (p.serve requests).Settled ∧ (p.serve requests).capacity = p.capacity := by
  induction requests generalizing p with
  | nil => exact ⟨settled, rfl⟩
  | cons r requests ih =>
    obtain ⟨served, capacity⟩ := ih (r.run_settled settled)
    exact ⟨served, capacity.trans (r.run_capacity p)⟩

/-- On a pool that has no other users, a request gives back the one tree that it takes, and takes none if
its source has no tokens. So at most one tree waits at a time, and after a request it waits if it has at
most 4096 nodes. -/
theorem trees_go_back_once (capacity : Nat) (earlier : List Request) (r : Request) :
    let p := (Pool.ofCapacity capacity).serve earlier
    let q := (r.run p).2
    p.idle ≤ 1 ∧
    q = (match Token.tokenize r.source with
      | .error _ => p
      | .ok ts => (p.acquire r.source.toList).2.release (r.tree p ts)) ∧
    q.idle = (if capacity = 0 then 0 else
      match Token.tokenize r.source with
      | .error _ => p.idle
      | .ok ts => if (r.tree p ts).count ≤ 4096 then 1 else 0) := by
  intro p q
  obtain ⟨settled, room⟩ : p.Settled ∧ p.capacity = capacity :=
    (Pool.settled_ofCapacity capacity).serve earlier
  refine ⟨settled.single, r.run_pool p, ?_⟩
  have within : q.idle ≤ capacity := by
    have reachable := ((Pool.Reachable.ofCapacity capacity).serve earlier)
    calc q.idle ≤ q.capacity := (r.run_reachable reachable).idle_le
      _ = p.capacity := r.run_capacity p
      _ = capacity := room
  by_cases none : capacity = 0
  · rw [if_pos none]
    omega
  · have some : 0 < (p.acquire r.source.toList).2.capacity := by
      rw [(p.acquire_counts r.source.toList).2.2.1, room]
      exact Nat.pos_of_ne_zero none
    rw [if_neg none, show q = _ from r.run_pool p]
    cases Token.tokenize r.source with
    | error => rfl
    | ok ts =>
      have free := (settled.acquire r.source.toList).2
      dsimp only
      rw [Pool.idle_release_of_doubled free (r.doubled_tree settled ts)]
      simp only [some, and_true, Pool.retainedNodes]

end ClauseSql
