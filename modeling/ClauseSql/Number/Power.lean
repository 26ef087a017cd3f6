/-! Powers of two and of ten, in which the sizes of numbers are measured. -/
namespace ClauseSql

def pow2 (n : Nat) : Nat := Nat.pow 2 n

def pow10 (n : Nat) : Nat := Nat.pow 10 n

theorem pow2_pos (n : Nat) : 0 < pow2 n := Nat.pow_pos (by decide)

theorem pow10_pos (n : Nat) : 0 < pow10 n := Nat.pow_pos (by decide)

theorem pow2_succ (n : Nat) : pow2 (n + 1) = pow2 n * 2 := rfl

end ClauseSql
