/-! The result of reading a non-empty part of an input: the value read and what follows it. The
rest is shorter than the input, so that a reader may call itself on it. -/
namespace ClauseSql

structure Reading {τ : Type} (α : Type) (input : List τ) where
  value : α
  rest : List τ
  shorter : rest.length < input.length

namespace Reading

variable {τ α β : Type} {input : List τ}

def map (f : α → β) (r : Reading α input) : Reading β input := ⟨f r.value, r.rest, r.shorter⟩

def behind (first : τ) (r : Reading α input) : Reading α (first :: input) :=
  ⟨r.value, r.rest, Nat.lt_succ_of_lt r.shorter⟩

theorem shorter_rest (first : τ) (rest : List τ) : rest.length < (first :: rest).length :=
  Nat.lt_succ_self _

theorem shorter_third (first second third : τ) (rest : List τ) :
    rest.length < (first :: second :: third :: rest).length :=
  Nat.lt_succ_of_lt (Nat.lt_succ_of_lt (Nat.lt_succ_self _))

theorem shorter_behind {t : τ} {rest : List τ} (first : τ) (shorter : (t :: rest).length < input.length) :
    rest.length < (first :: input).length :=
  Nat.lt_succ_of_lt (Nat.lt_of_succ_lt shorter)

theorem shorter_second {first second : τ} {rest : List τ}
    (shorter : (first :: second :: rest).length < input.length) : rest.length < input.length :=
  Nat.lt_of_succ_lt (Nat.lt_of_succ_lt shorter)

end Reading

end ClauseSql
