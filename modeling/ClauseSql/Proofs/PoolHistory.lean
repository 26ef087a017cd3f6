import ClauseSql.Proofs.TreeReading
import Mathlib.Algebra.Order.Ring.Nat
import Mathlib.Data.List.Infix

/-! What happens to pools and the trees that are taken from them. Pools are created and given further
names, trees are acquired by name, grow, are asked for nodes and are released, in any order and any
number of them at once. A history lists what has happened, the latest first. Along every history a
handle leads to the node for which it was issued, on the tree that has issued it and on no other. -/
namespace ClauseSql

namespace Pool

theorem acquire_counts (p : Pool) (source : List Char) :
    (p.acquire source).1.generation = p.generation ∧
      (p.acquire source).2.generation = p.generation + 1 ∧
      (p.acquire source).2.capacity = p.capacity ∧ (p.acquire source).2.idle = p.idle - 1 := by
  unfold acquire
  split
  · next none => exact ⟨rfl, rfl, rfl, by simp [idle, none]⟩
  · next storage free waiting => exact ⟨rfl, rfl, rfl, by simp [idle, waiting]⟩

theorem generation_release (p : Pool) (t : Tree) : (p.release t).generation = p.generation := by
  unfold release
  split <;> rfl

theorem capacity_release (p : Pool) (t : Tree) : (p.release t).capacity = p.capacity := by
  unfold release
  split <;> rfl

theorem idle_release (p : Pool) (t : Tree) :
    (p.release t).idle =
      if t.storage.capacity ≤ retainedNodes ∧ p.idle < p.capacity then p.idle + 1 else p.idle := by
  unfold release idle
  split <;> simp

theorem Reachable.idle_le {p : Pool} (reachable : p.Reachable) : p.idle ≤ p.capacity := by
  induction reachable with
  | ofCapacity capacity => exact Nat.zero_le capacity
  | @acquire p source _ ih =>
    obtain ⟨-, -, capacity, idle⟩ := p.acquire_counts source
    omega
  | @release p t _ ih =>
    rw [idle_release, capacity_release]
    split <;> omega

end Pool

theorem Tree.get?_foreign {t : Tree} {id : NodeId} (foreign : id.generation ≠ t.generation) :
    t.get? id = none := if_neg foreign

namespace History

/-- What happened, with what was answered. Names of pools and trees are numbered from zero, each in the
order in which they came. -/
inductive Event where
  | created (capacity name : Nat)
  | cloned (name clone : Nat)
  | acquired (name : Nat) (source : List Char) (tree : Nat)
  | pushed (tree : Nat) (node : Node) (id : NodeId)
  | listed (tree : Nat) (ids : List NodeId) (list : ArgList)
  | got (tree : Nat) (id : NodeId) (found : Option Node)
  | released (tree : Nat)
  deriving DecidableEq

/-- A tree with the number of the pool from which it was taken. A tree that has been released is kept in
the books as it was then. -/
structure Lease where
  pool : Nat
  tree : Tree
  live : Bool

structure World where
  pools : List Pool
  /-- The number of the pool behind each name. -/
  names : List Nat
  leases : List Lease

namespace World

def putPool (w : World) (pool : Nat) (p : Pool) : World := { w with pools := w.pools.set pool p }

def put (w : World) (k : Nat) (l : Lease) : World := { w with leases := w.leases.set k l }

end World

/-- A clone is a further name of the same pool. A tree goes back to the pool from which it was taken, and
is out of use from then on. -/
inductive Step (w : World) : Event → World → Prop
  | created (capacity : Nat) :
      Step w (.created capacity w.names.length)
        { w with pools := w.pools ++ [.ofCapacity capacity], names := w.names ++ [w.pools.length] }
  | cloned {name pool : Nat} (named : w.names[name]? = some pool) :
      Step w (.cloned name w.names.length) { w with names := w.names ++ [pool] }
  | acquired {name pool : Nat} {p : Pool} (named : w.names[name]? = some pool)
      (found : w.pools[pool]? = some p) (source : List Char) :
      Step w (.acquired name source w.leases.length)
        { w.putPool pool (p.acquire source).2 with
          leases := w.leases ++ [⟨pool, (p.acquire source).1, true⟩] }
  | pushed {k pool : Nat} {t : Tree} (leased : w.leases[k]? = some ⟨pool, t, true⟩) (node : Node) :
      Step w (.pushed k node (t.push node).1) (w.put k ⟨pool, (t.push node).2, true⟩)
  | listed {k pool : Nat} {t : Tree} (leased : w.leases[k]? = some ⟨pool, t, true⟩)
      (ids : List NodeId) :
      Step w (.listed k ids (t.pushArgs ids).1) (w.put k ⟨pool, (t.pushArgs ids).2, true⟩)
  | got {k pool : Nat} {t : Tree} (leased : w.leases[k]? = some ⟨pool, t, true⟩) (id : NodeId) :
      Step w (.got k id (t.get? id)) w
  | released {k pool : Nat} {t : Tree} {p : Pool} (leased : w.leases[k]? = some ⟨pool, t, true⟩)
      (found : w.pools[pool]? = some p) :
      Step w (.released k) ((w.putPool pool (p.release t)).put k ⟨pool, t, false⟩)

inductive Run : List Event → World → Prop
  | start : Run [] ⟨[], [], []⟩
  | step {past : List Event} {w next : World} {event : Event} :
      Run past w → Step w event next → Run (event :: past) next

def Event.nodes (k : Nat) : Event → Nat
  | .pushed tree _ _ => if tree = k then 1 else 0
  | _ => 0

def Event.arguments (k : Nat) : Event → Nat
  | .listed tree ids _ => if tree = k then ids.length else 0
  | _ => 0

def pushes (k : Nat) (past : List Event) : Nat := (past.map (Event.nodes k)).sum

@[simp] theorem pushes_cons (k : Nat) (event : Event) (past : List Event) :
    pushes k (event :: past) = event.nodes k + pushes k past := rfl

def pushedArguments (k : Nat) (past : List Event) : Nat := (past.map (Event.arguments k)).sum

@[simp] theorem pushedArguments_cons (k : Nat) (event : Event) (past : List Event) :
    pushedArguments k (event :: past) = event.arguments k + pushedArguments k past := rfl

def World.acquires (w : World) (pool : Nat) : Nat := w.leases.countP (·.pool == pool)

theorem Step.pools_reachable {w next : World} {event : Event} (step : Step w event next)
    (before : ∀ p ∈ w.pools, p.Reachable) : ∀ p ∈ next.pools, p.Reachable := by
  cases step with
  | created capacity =>
    intro p member
    rcases List.mem_append.1 member with old | new
    · exact before p old
    · rw [List.mem_singleton.1 new]
      exact .ofCapacity capacity
  | acquired named found source =>
    intro p member
    rcases List.mem_or_eq_of_mem_set member with old | rfl
    · exact before p old
    · exact (before _ (List.mem_of_getElem? found)).acquire source
  | released leased found =>
    intro p member
    rcases List.mem_or_eq_of_mem_set member with old | rfl
    · exact before p old
    · exact (before _ (List.mem_of_getElem? found)).release _
  | _ => exact before

theorem Run.pools_reachable {past : List Event} {w : World} (run : Run past w) :
    ∀ p ∈ w.pools, p.Reachable := by
  induction run with
  | start => simp
  | step _ step ih => exact step.pools_reachable ih

theorem map_set_same {α β : Type} {f : α → β} {l : List α} {k : Nat} {a b : α}
    (found : l[k]? = some a) (same : f b = f a) : (l.set k b).map f = l.map f := by
  apply List.ext_getElem?
  intro i
  rw [List.map_set, List.getElem?_set, List.getElem?_map]
  grind

def World.capacities (w : World) : List Nat := w.pools.map Pool.capacity

theorem Step.capacities_grow {w next : World} {event : Event} (step : Step w event next) :
    w.capacities <+: next.capacities := by
  cases step with
  | created capacity => simp [World.capacities]
  | acquired named found source =>
    simp only [World.capacities, World.putPool]
    rw [map_set_same found (Pool.acquire_counts _ source).2.2.1]
  | @released _ _ t _ leased found =>
    simp only [World.capacities, World.put, World.putPool]
    rw [map_set_same found (Pool.capacity_release _ t)]
  | _ => exact List.prefix_rfl

theorem Step.names_grow {w next : World} {event : Event} (step : Step w event next) :
    w.names <+: next.names := by
  cases step with
  | created => exact List.prefix_append _ _
  | cloned => exact List.prefix_append _ _
  | _ => exact List.prefix_rfl

theorem getElem?_of_prefix {α : Type} {as bs : List α} {k : Nat} {a : α} (before : as <+: bs)
    (found : as[k]? = some a) : bs[k]? = some a := by
  obtain ⟨rest, rfl⟩ := before
  obtain ⟨bound, rfl⟩ := List.getElem?_eq_some_iff.1 found
  rw [List.getElem?_append_left bound, found]

theorem Run.capacity_of_created {past : List Event} {w : World} (run : Run past w) {capacity name : Nat}
    (created : .created capacity name ∈ past) :
    ∃ pool, w.names[name]? = some pool ∧ w.capacities[pool]? = some capacity := by
  induction run with
  | start => cases created
  | @step past w next event run step ih =>
    rcases List.mem_cons.1 created with rfl | before
    · cases step with
      | created => exact ⟨w.pools.length, by simp, by simp [World.capacities, Pool.ofCapacity]⟩
    · obtain ⟨pool, named, given⟩ := ih before
      exact ⟨pool, getElem?_of_prefix step.names_grow named,
        getElem?_of_prefix step.capacities_grow given⟩

theorem Run.names_lt {past : List Event} {w : World} (run : Run past w) :
    ∀ pool ∈ w.names, pool < w.pools.length := by
  induction run with
  | start => simp
  | @step past w next event run step ih =>
    cases step with
    | created capacity =>
      intro pool member
      simp only [List.mem_append, List.mem_singleton, List.length_append, List.length_singleton]
        at member ⊢
      rcases member with old | rfl
      · have := ih pool old
        omega
      · omega
    | cloned named =>
      intro pool member
      rcases List.mem_append.1 member with old | new
      · exact ih pool old
      · rw [List.mem_singleton.1 new]
        exact ih _ (List.mem_of_getElem? named)
    | acquired => simpa [World.putPool] using ih
    | released => simpa [World.put, World.putPool] using ih
    | _ => exact ih

def nth (n : Nat) : UInt32 := (n + 1).toUInt32

theorem nth_add_one (n : Nat) : nth n + 1 = nth (n + 1) :=
  (UInt32.ofNat_add (n + 1) 1).symm

theorem nth_ne {m n : Nat} (less : m < n) (few : n < handles) : nth m ≠ nth n := by
  intro same
  have wrapped := congrArg UInt32.toNat same
  simp only [nth, Nat.toUInt32, UInt32.toNat_ofNat', handles] at wrapped few
  omega

def World.counters (w : World) : List UInt32 := w.pools.map Pool.generation

def World.origins (w : World) : List (Nat × UInt32) :=
  w.leases.map fun l => (l.pool, l.tree.generation)

def taken (pool : Nat) (origins : List (Nat × UInt32)) : Nat := origins.countP (·.1 == pool)

theorem acquires_eq_taken (w : World) (pool : Nat) : w.acquires pool = taken pool w.origins := by
  rw [World.acquires, taken, World.origins, List.countP_map]
  rfl

/-- Every pool numbers its own trees, one after the other. -/
structure Numbered (counters : List UInt32) (origins : List (Nat × UInt32)) : Prop where
  known : ∀ o ∈ origins, o.1 < counters.length
  pools : ∀ pool g, counters[pool]? = some g → g = nth (taken pool origins)
  trees : ∀ k pool g, origins[k]? = some (pool, g) → g = nth (taken pool (origins.take k))

namespace Numbered

variable {counters : List UInt32} {origins : List (Nat × UInt32)}

theorem created (numbered : Numbered counters origins) : Numbered (counters ++ [1]) origins where
  known o member := by
    have := numbered.known o member
    rw [List.length_append]
    omega
  pools pool g found := by
    rw [List.getElem?_append] at found
    split at found
    · exact numbered.pools pool g found
    · next beyond =>
      have none : taken pool origins = 0 := by
        rw [taken, List.countP_eq_zero]
        intro o member same
        have := numbered.known o member
        rw [beq_iff_eq] at same
        omega
      have one : g = 1 := List.mem_singleton.1 (List.mem_of_getElem? found)
      rw [none, one]
      rfl
  trees := numbered.trees

theorem acquired (numbered : Numbered counters origins) {pool : Nat} {g : UInt32}
    (found : counters[pool]? = some g) :
    Numbered (counters.set pool (g + 1)) (origins ++ [(pool, g)]) where
  known o member := by
    rw [List.length_set]
    rcases List.mem_append.1 member with old | new
    · exact numbered.known o old
    · rw [List.mem_singleton.1 new]
      exact (List.getElem?_eq_some_iff.1 found).1
  pools other h counter := by
    rw [taken, List.countP_append, List.countP_singleton, ← taken]
    rw [List.getElem?_set] at counter
    by_cases same : pool = other
    · subst same
      have bound := (List.getElem?_eq_some_iff.1 found).1
      rw [if_pos rfl, if_pos bound, Option.some.injEq] at counter
      rw [← counter, numbered.pools pool g found, nth_add_one]
      simp
    · rw [if_neg same] at counter
      rw [numbered.pools other h counter]
      simp [same]
  trees k other h origin := by
    rw [List.getElem?_append] at origin
    split at origin
    · next before =>
      rw [List.take_append_of_le_length (Nat.le_of_lt before)]
      exact numbered.trees k other h origin
    · next beyond =>
      obtain ⟨bound, same⟩ := List.getElem?_eq_some_iff.1 origin
      have last : k = origins.length := by
        simp only [List.length_singleton] at bound
        omega
      subst last
      simp only [Nat.sub_self, List.getElem_singleton, Prod.mk.injEq] at same
      obtain ⟨rfl, rfl⟩ := same
      rw [List.take_left]
      exact numbered.pools pool g found

/-- Two trees of one pool have different generations, as long as the pool has not counted once round. -/
theorem apart (numbered : Numbered counters origins) {pool j k : Nat} {g h : UInt32}
    (first : origins[j]? = some (pool, g)) (second : origins[k]? = some (pool, h)) (less : j < k)
    (few : taken pool origins < handles) : g ≠ h := by
  rw [numbered.trees j pool g first, numbered.trees k pool h second]
  have later : taken pool (origins.take j) < taken pool (origins.take k) :=
    calc taken pool (origins.take j) < taken pool (origins.take (j + 1)) := by
          simp [taken, List.take_add_one, first]
      _ ≤ taken pool (origins.take k) :=
          (List.take_sublist_take_left less).countP_le
  have within : taken pool (origins.take k) ≤ taken pool origins :=
    (List.take_sublist k origins).countP_le
  exact nth_ne later (Nat.lt_of_le_of_lt within few)

end Numbered

theorem World.origins_put {w : World} {k : Nat} {l m : Lease} (leased : w.leases[k]? = some l)
    (same : (m.pool, m.tree.generation) = (l.pool, l.tree.generation)) :
    (w.put k m).origins = w.origins := map_set_same leased same

theorem Step.numbered {w next : World} {event : Event} (step : Step w event next)
    (numbered : Numbered w.counters w.origins) : Numbered next.counters next.origins := by
  cases step with
  | created capacity => simpa [World.counters, World.origins, Pool.ofCapacity] using numbered.created
  | cloned => exact numbered
  | @acquired name pool p named found source =>
    have counter : w.counters[pool]? = some p.generation := by simp [World.counters, found]
    have next := numbered.acquired counter
    simpa [World.counters, World.origins, World.putPool, List.map_set, Pool.acquire_counts] using next
  | pushed leased =>
    rw [World.origins_put leased]
    · exact numbered
    · rfl
  | listed leased =>
    rw [World.origins_put leased]
    · exact numbered
    · rfl
  | got => exact numbered
  | @released k pool t p leased found =>
    have counters : (w.putPool pool (p.release t)).counters = w.counters :=
      map_set_same found (p.generation_release t)
    have origins : ((w.putPool pool (p.release t)).put k ⟨pool, t, false⟩).origins = w.origins :=
      map_set_same leased rfl
    rw [← counters, ← origins] at numbered
    exact numbered

theorem Run.numbered {past : List Event} {w : World} (run : Run past w) :
    Numbered w.counters w.origins := by
  induction run with
  | start => exact ⟨by simp [World.origins], by simp [World.counters], by simp [World.origins]⟩
  | step _ step ih => exact step.numbered ih

theorem Run.generation_ne {past : List Event} {w : World} (run : Run past w) {j k : Nat} {l m : Lease}
    (first : w.leases[j]? = some l) (second : w.leases[k]? = some m) (home : l.pool = m.pool)
    (other : j ≠ k) (few : w.acquires m.pool < handles) : l.tree.generation ≠ m.tree.generation := by
  have left : w.origins[j]? = some (m.pool, l.tree.generation) := by simp [World.origins, first, home]
  have right : w.origins[k]? = some (m.pool, m.tree.generation) := by simp [World.origins, second]
  rw [acquires_eq_taken] at few
  rcases Nat.lt_or_gt_of_ne other with less | greater
  · exact run.numbered.apart left right less few
  · exact (run.numbered.apart right left greater few).symm

def Event.grown? : Event → Option Nat
  | .pushed tree _ _ => some tree
  | .listed tree _ _ => some tree
  | _ => none

theorem Event.nodes_eq_zero {event : Event} {k : Nat} (other : event.grown? ≠ some k) :
    event.nodes k = 0 := by
  cases event with
  | pushed tree node id => exact if_neg fun same => other (congrArg some same)
  | _ => rfl

theorem Event.arguments_eq_zero {event : Event} {k : Nat} (other : event.grown? ≠ some k) :
    event.arguments k = 0 := by
  cases event with
  | listed tree ids list => exact if_neg fun same => other (congrArg some same)
  | _ => rfl

/-- What a history tells of a tree: all that was ever stored in it is still there, in the place where it was
put. -/
structure Recorded (past : List Event) (k : Nat) (t : Tree) : Prop where
  count : t.count = pushes k past
  held : t.held = pushedArguments k past
  pushed : ∀ node id, .pushed k node id ∈ past →
    ∃ u : Tree, (u.push node).1 = id ∧ (u.push node).2.Grows t
  listed : ∀ ids list, .listed k ids list ∈ past →
    ∃ u : Tree, (u.pushArgs ids).1 = list ∧ (u.pushArgs ids).2.Grows t

namespace Recorded

variable {past : List Event} {k : Nat} {t : Tree}

theorem idle (recorded : Recorded past k t) {event : Event} (other : event.grown? ≠ some k) :
    Recorded (event :: past) k t where
  count := by
    rw [pushes_cons, event.nodes_eq_zero other, Nat.zero_add]
    exact recorded.count
  held := by
    rw [pushedArguments_cons, event.arguments_eq_zero other, Nat.zero_add]
    exact recorded.held
  pushed node id member := by
    rcases List.mem_cons.1 member with rfl | before
    · exact absurd rfl other
    · exact recorded.pushed node id before
  listed ids list member := by
    rcases List.mem_cons.1 member with rfl | before
    · exact absurd rfl other
    · exact recorded.listed ids list before

theorem unborn (fresh : ∀ event ∈ past, event.grown? ≠ some k) (empty : t.count = 0)
    (bare : t.held = 0) : Recorded past k t := by
  induction past with
  | nil => exact ⟨empty, bare, by simp, by simp⟩
  | cons event past ih =>
    simp only [List.mem_cons, forall_eq_or_imp] at fresh
    exact (ih fresh.2).idle fresh.1

theorem push (recorded : Recorded past k t) (node : Node) :
    Recorded (.pushed k node (t.push node).1 :: past) k (t.push node).2 where
  count := by
    simp [Event.nodes, recorded.count, Nat.add_comm]
  held := by
    simp [Event.arguments, recorded.held]
  pushed other id member := by
    rcases List.mem_cons.1 member with now | before
    · cases now
      exact ⟨t, rfl, .refl _⟩
    · obtain ⟨u, issued, grown⟩ := recorded.pushed other id before
      exact ⟨u, issued, grown.trans (t.grows_push node)⟩
  listed ids list member := by
    rcases List.mem_cons.1 member with now | before
    · cases now
    · obtain ⟨u, issued, grown⟩ := recorded.listed ids list before
      exact ⟨u, issued, grown.trans (t.grows_push node)⟩

theorem pushArgs (recorded : Recorded past k t) (ids : List NodeId) :
    Recorded (.listed k ids (t.pushArgs ids).1 :: past) k (t.pushArgs ids).2 where
  count := by
    simp [Event.nodes, recorded.count]
  held := by
    simp [Event.arguments, recorded.held, Nat.add_comm]
  pushed node id member := by
    rcases List.mem_cons.1 member with now | before
    · cases now
    · obtain ⟨u, issued, grown⟩ := recorded.pushed node id before
      exact ⟨u, issued, grown.trans (t.grows_pushArgs ids)⟩
  listed others list member := by
    rcases List.mem_cons.1 member with now | before
    · cases now
      exact ⟨t, rfl, .refl _⟩
    · obtain ⟨u, issued, grown⟩ := recorded.listed others list before
      exact ⟨u, issued, grown.trans (t.grows_pushArgs ids)⟩

end Recorded

theorem Run.grown_lt {past : List Event} {w : World} (run : Run past w) :
    ∀ event ∈ past, ∀ k ∈ event.grown?, k < w.leases.length := by
  induction run with
  | start => simp
  | @step past w next event run step ih =>
    have longer : w.leases.length ≤ next.leases.length := by
      cases step <;> simp [World.put, World.putPool]
    simp only [List.mem_cons, forall_eq_or_imp]
    constructor
    · intro k grown
      cases step with
      | pushed leased =>
        cases grown
        exact Nat.lt_of_lt_of_le (List.getElem?_eq_some_iff.1 leased).1 longer
      | listed leased =>
        cases grown
        exact Nat.lt_of_lt_of_le (List.getElem?_eq_some_iff.1 leased).1 longer
      | _ => cases grown
    · intro event member k grown
      exact Nat.lt_of_lt_of_le (ih event member k grown) longer

theorem World.leases_put {w : World} {j k : Nat} {l m n : Lease} (leased : w.leases[j]? = some l)
    (found : (w.put j m).leases[k]? = some n) : (k = j ∧ n = m) ∨ (k ≠ j ∧ w.leases[k]? = some n) := by
  rw [World.put, List.getElem?_set] at found
  split at found
  · next same =>
    rw [if_pos (List.getElem?_eq_some_iff.1 leased).1, Option.some.injEq] at found
    exact .inl ⟨same.symm, found.symm⟩
  · next other => exact .inr ⟨fun same => other same.symm, found⟩

theorem Run.recorded {past : List Event} {w : World} (run : Run past w) {k : Nat} {l : Lease}
    (leased : w.leases[k]? = some l) : Recorded past k l.tree := by
  induction run generalizing k l with
  | start => simp at leased
  | @step past w next event run step ih =>
    cases step with
    | created => exact (ih leased).idle (by simp [Event.grown?])
    | cloned => exact (ih leased).idle (by simp [Event.grown?])
    | @acquired name pool p named found source =>
      rw [List.getElem?_append] at leased
      split at leased
      · exact (ih leased).idle (by simp [Event.grown?])
      · next beyond =>
        obtain ⟨bound, rfl⟩ := List.getElem?_eq_some_iff.1 leased
        rw [List.length_singleton] at bound
        have reachable := run.pools_reachable p (List.mem_of_getElem? found)
        obtain ⟨empty, bare, -⟩ := reachable.acquire_bare source
        have fresh : ∀ event ∈ past, event.grown? ≠ some k := by
          intro event member grown
          exact beyond (run.grown_lt event member k grown)
        rw [List.getElem_singleton]
        exact (Recorded.unborn fresh empty bare).idle (by simp [Event.grown?])
    | @pushed j pool t here node =>
      rcases World.leases_put here leased with ⟨rfl, rfl⟩ | ⟨other, there⟩
      · exact (ih here).push node
      · exact (ih there).idle (by simpa [Event.grown?] using other.symm)
    | @listed j pool t here ids =>
      rcases World.leases_put here leased with ⟨rfl, rfl⟩ | ⟨other, there⟩
      · exact (ih here).pushArgs ids
      · exact (ih there).idle (by simpa [Event.grown?] using other.symm)
    | got => exact (ih leased).idle (by simp [Event.grown?])
    | @released j pool t p here found =>
      rcases World.leases_put here leased with ⟨rfl, rfl⟩ | ⟨other, there⟩
      · exact (ih here).idle (by simp [Event.grown?])
      · exact (ih there).idle (by simp [Event.grown?])

namespace Recorded

variable {past : List Event} {k : Nat} {t : Tree} (recorded : Recorded past k t)
include recorded

theorem get?_pushed {node : Node} {id : NodeId} (pushed : .pushed k node id ∈ past)
    (few : pushes k past < handles) : t.get? id = some node := by
  obtain ⟨u, rfl, grown⟩ := recorded.pushed node id pushed
  have inside : u.count < t.count := (Array.getElem?_eq_some_iff.1 grown.nodes_push).1
  rw [recorded.count] at inside
  exact grown.get?_push (Nat.lt_trans inside few)

theorem generation_pushed {node : Node} {id : NodeId} (pushed : .pushed k node id ∈ past) :
    id.generation = t.generation := by
  obtain ⟨u, rfl, grown⟩ := recorded.pushed node id pushed
  exact (congrArg Tree.Origin.generation grown.origin).symm

theorem args?_listed {ids : List NodeId} {list : ArgList} (listed : .listed k ids list ∈ past)
    (few : pushedArguments k past < handles) : t.args? list = some ids := by
  obtain ⟨u, rfl, grown⟩ := recorded.listed ids list listed
  have inside : (u.pushArgs ids).2.held ≤ t.held := grown.arguments.length_le
  rw [recorded.held, Tree.held_pushArgs] at inside
  exact grown.args?_pushArgs (by omega) (by omega)

end Recorded

/-- What the owners of a pool's trees can rely on, at the end of a history. -/
structure Faithful (past : List Event) (w : World) (pool : Nat) : Prop where
  /-- Of the handles that trees of the pool have issued, live or released ones, a live tree knows its own
  and no others. -/
  handles : ∀ k t, w.leases[k]? = some ⟨pool, t, true⟩ → pushes k past < 2 ^ 32 →
    ∀ j l, w.leases[j]? = some l → l.pool = pool → ∀ m id, .pushed j m id ∈ past →
      (∀ n, t.get? id = some n ↔ .pushed k n id ∈ past) ∧ (j ≠ k → t.get? id = none)
  /-- Each argument of a list is a push of its own. -/
  lists : ∀ k t, w.leases[k]? = some ⟨pool, t, true⟩ → pushedArguments k past < 2 ^ 32 →
    ∀ ids list, .listed k ids list ∈ past → t.args? list = some ids
  acquirable : ∀ name source, w.names[name]? = some pool →
    ∃ k next, Step w (.acquired name source k) next
  acquired_empty : ∀ name source k next, Step w (.acquired name source k) next →
    ∃ home t, next.leases[k]? = some ⟨home, t, true⟩ ∧ t.count = 0
  idle : ∀ capacity name, .created capacity name ∈ past → w.names[name]? = some pool →
    ∃ p, w.pools[pool]? = some p ∧ p.idle ≤ capacity

theorem handles_hold_on_their_own_tree {past : List Event} {w : World} (run : Run past w) {pool : Nat}
    (few : w.acquires pool < 2 ^ 32) : Faithful past w pool where
  handles k t leased room j l issuer home m id issued := by
    have own := run.recorded leased
    have theirs := run.recorded issuer
    by_cases same : j = k
    · subst same
      have found := own.get?_pushed issued room
      refine ⟨fun n => ⟨fun got => ?_, fun pushed => own.get?_pushed pushed room⟩, absurd rfl⟩
      rw [found, Option.some.injEq] at got
      rwa [← got]
    · have foreign : id.generation ≠ t.generation := by
        rw [theirs.generation_pushed issued]
        exact run.generation_ne issuer leased home same few
      have none := Tree.get?_foreign foreign
      refine ⟨fun n => ⟨fun got => ?_, fun pushed => ?_⟩, fun _ => none⟩
      · rw [none] at got
        cases got
      · exact absurd (own.generation_pushed pushed) foreign
  lists k t leased room ids list listed := (run.recorded leased).args?_listed listed room
  acquirable name source named := by
    have bound := run.names_lt pool (List.mem_of_getElem? named)
    exact ⟨_, _, .acquired named (List.getElem?_eq_getElem bound) source⟩
  acquired_empty name source k next step := by
    cases step with
    | @acquired _ home p named found _ =>
      have reachable := run.pools_reachable p (List.mem_of_getElem? found)
      exact ⟨home, _, List.getElem?_concat_length, (reachable.acquire_bare source).1⟩
  idle capacity name created named := by
    obtain ⟨home, given, kept⟩ := run.capacity_of_created created
    rw [named, Option.some.injEq] at given
    subst given
    rw [World.capacities, List.getElem?_map, Option.map_eq_some_iff] at kept
    obtain ⟨p, found, rfl⟩ := kept
    exact ⟨p, found, (run.pools_reachable p (List.mem_of_getElem? found)).idle_le⟩

/-- The second tree works in the storage of the first, which has issued the handle `⟨0, 1⟩`. -/
theorem handles_hold_in_reused_storage :
    let first : Node := .path ⟨0, 1⟩
    let second : Node := .literal .number ⟨0, 1⟩
    let t : Tree := ⟨['7'], 2, ⟨#[second], #[⟨0, 2⟩, ⟨0, 1⟩], 32⟩⟩
    let w : World :=
      ⟨[⟨1, 3, []⟩], [0, 0], [⟨0, ⟨['a'], 1, ⟨#[first], #[], 32⟩⟩, false⟩, ⟨0, t, true⟩]⟩
    let past : List Event :=
      [.listed 1 [⟨0, 2⟩, ⟨0, 1⟩] ⟨0, 2⟩, .pushed 1 second ⟨0, 2⟩, .acquired 1 ['7'] 1, .released 0,
        .pushed 0 first ⟨0, 1⟩, .acquired 0 ['a'] 0, .cloned 0 1, .created 1 0]
    Run past w ∧ w.acquires 0 < 2 ^ 32 ∧ Faithful past w 0 ∧ t.get? ⟨0, 1⟩ = none ∧
      t.get? ⟨0, 2⟩ = some second ∧ t.args? ⟨0, 2⟩ = some [⟨0, 2⟩, ⟨0, 1⟩] := by
  intro first second t w past
  let old : Tree := ⟨['a'], 1, ⟨#[first], #[], 32⟩⟩
  let bare : Tree := ⟨['7'], 2, ⟨#[], #[], 32⟩⟩
  have named : Run [.cloned 0 1, .created 1 0] ⟨[⟨1, 1, []⟩], [0, 0], []⟩ :=
    .step (.step .start (.created 1)) (.cloned rfl)
  have acquired : Run (.acquired 0 ['a'] 0 :: _) ⟨[⟨1, 2, []⟩], [0, 0], [⟨0, ⟨['a'], 1, .fresh⟩, true⟩]⟩ :=
    named.step (@Step.acquired _ 0 0 ⟨1, 1, []⟩ rfl rfl ['a'])
  have pushed : Run (.pushed 0 first ⟨0, 1⟩ :: _) ⟨[⟨1, 2, []⟩], [0, 0], [⟨0, old, true⟩]⟩ :=
    acquired.step (@Step.pushed _ 0 0 ⟨['a'], 1, .fresh⟩ rfl first)
  have released : Run (.released 0 :: _) ⟨[⟨1, 2, [⟨#[], #[], 32⟩]⟩], [0, 0], [⟨0, old, false⟩]⟩ :=
    pushed.step (@Step.released _ 0 0 old ⟨1, 2, []⟩ rfl rfl)
  have reused : Run (.acquired 1 ['7'] 1 :: _)
      ⟨[⟨1, 3, []⟩], [0, 0], [⟨0, old, false⟩, ⟨0, bare, true⟩]⟩ :=
    released.step (@Step.acquired _ 1 0 ⟨1, 2, [⟨#[], #[], 32⟩]⟩ rfl rfl ['7'])
  have filled : Run (.pushed 1 second ⟨0, 2⟩ :: _)
      ⟨[⟨1, 3, []⟩], [0, 0], [⟨0, old, false⟩, ⟨0, (bare.push second).2, true⟩]⟩ :=
    reused.step (@Step.pushed _ 1 0 bare rfl second)
  have run : Run past w := filled.step (@Step.listed _ 1 0 (bare.push second).2 rfl [⟨0, 2⟩, ⟨0, 1⟩])
  have few : w.acquires 0 < 2 ^ 32 := by decide
  have faithful := handles_hold_on_their_own_tree run few
  have stale := faithful.handles 1 t rfl (by decide) 0 ⟨0, old, false⟩ rfl rfl first ⟨0, 1⟩ (by simp [past])
  have own := faithful.handles 1 t rfl (by decide) 1 ⟨0, t, true⟩ rfl rfl second ⟨0, 2⟩ (by simp [past])
  refine ⟨run, few, faithful, stale.2 (by decide), (own.1 second).2 (by simp [past]), ?_⟩
  exact faithful.lists 1 t rfl (by decide) [⟨0, 2⟩, ⟨0, 1⟩] ⟨0, 2⟩ (by simp [past])

end History

end ClauseSql
