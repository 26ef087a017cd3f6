import ClauseSql.Storage.Basic

/-! A pool of storage. Trees take storage from it and give it back, emptied, when they are
released; the pool keeps at most `capacity` of them, and none that has grown too large. -/
namespace ClauseSql

structure Pool where
  capacity : Nat
  /-- The generation of the next tree. -/
  generation : UInt32
  /-- Released storage, the longest waiting first. -/
  free : List Storage
  deriving DecidableEq, Repr

namespace Pool

def defaultCapacity : Nat := 256

/-- Storage that can take more nodes than this is not kept. -/
def retainedNodes : Nat := 4096

def ofCapacity (capacity : Nat) : Pool := ⟨capacity, 1, []⟩

def default : Pool := ofCapacity defaultCapacity

def idle (p : Pool) : Nat := p.free.length

def acquire (p : Pool) (source : List Char) : Tree × Pool :=
  match p.free with
  | [] => (⟨source, p.generation, .fresh⟩, { p with generation := p.generation + 1 })
  | storage :: free =>
    (⟨source, p.generation, storage⟩, { p with generation := p.generation + 1, free })

def release (p : Pool) (t : Tree) : Pool :=
  if t.storage.capacity ≤ retainedNodes ∧ p.free.length < p.capacity then
    { p with free := p.free ++ [t.storage.clear] }
  else p

end Pool

end ClauseSql
