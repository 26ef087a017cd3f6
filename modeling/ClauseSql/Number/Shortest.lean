import ClauseSql.Number.Binary64

/-! The fewest digits that name a double. A decimal names a number if it lies among the reals that
round to it; of the decimals with the fewest digits the nearest one is taken. -/
namespace ClauseSql

structure Decimal where
  digits : Nat
  power : Int
  deriving DecidableEq, Repr

inductive Tie where
  | up
  | even
  deriving DecidableEq, Repr

namespace Decimal

def compareScaled (a : Nat) (i : Int) (n : Nat) (j : Int) : Ordering :=
  compare (a * pow10 i.toNat * pow2 (-j).toNat) (n * pow2 j.toNat * pow10 (-i).toNat)

/-- Whether the reals from halfway to the number below up to halfway to the number above hold the
decimal. The ends belong to them if the significand is even. -/
def names (d : Decimal) (x : Binary64) : Bool :=
  let m := x.significand
  let q : Int := (x.exponent : Int) - 1076
  let narrow := m = Binary64.hiddenBit ∧ x.exponent ≠ 0
  let low := compareScaled d.digits d.power (if narrow then 4 * m - 1 else 4 * m - 2) q
  let high := compareScaled d.digits d.power (4 * m + 2) q
  let closed := m % 2 = 0
  (low = .gt ∨ closed ∧ low = .eq) ∧ (high = .lt ∨ closed ∧ high = .eq)

/-- The least `k` with `x < 10 ^ k`, found from an estimate that is one too low at most. -/
def scale (x : Binary64) : Int :=
  let m := x.significand
  let q : Int := (x.exponent : Int) - 1074
  let estimate : Int := ((m.log2 : Int) + q) * 30103 / 100000
  if compareScaled 1 estimate m q = .gt then estimate
  else if compareScaled 1 (estimate + 1) m q = .gt then estimate + 1
  else estimate + 2

def neighbours (x : Binary64) (power : Int) : Nat × Nat :=
  let (num, den) := x.ratio
  let low := (num * pow10 (-power).toNat) / (den * pow10 power.toNat)
  (low, low + 1)

def nearer (tie : Tie) (x : Binary64) (power : Int) (low high : Nat) : Nat :=
  let q : Int := (x.exponent : Int) - 1074
  match compareScaled (low + high) power (2 * x.significand) q with
  | .lt => high
  | .gt => low
  | .eq => match tie with
    | .up => high
    | .even => if low % 2 = 0 then low else high

def onGrid? (tie : Tie) (x : Binary64) (power : Int) : Option Decimal :=
  let (low, high) := neighbours x power
  match (⟨low, power⟩ : Decimal).names x, (⟨high, power⟩ : Decimal).names x with
  | true, true => some ⟨nearer tie x power low high, power⟩
  | true, false => some ⟨low, power⟩
  | false, true => some ⟨high, power⟩
  | false, false => none

/-- Tries grids of more and more digits. The number itself is a decimal, so it can stand in when
the digits run out. -/
def search (tie : Tie) (x : Binary64) (scale : Int) : (tries used : Nat) → Decimal
  | 0, _ =>
    let (num, den) := x.ratio
    ⟨num * pow10 den.log2 / den, -(den.log2 : Int)⟩
  | tries + 1, used =>
    match onGrid? tie x (scale - used) with
    | some d => d
    | none => search tie x scale tries (used + 1)

def strip (fuel : Nat) (d : Decimal) : Decimal :=
  match fuel with
  | 0 => d
  | fuel + 1 => if d.digits ≠ 0 ∧ d.digits % 10 = 0 then strip fuel ⟨d.digits / 10, d.power + 1⟩ else d

def shortest (tie : Tie) (x : Binary64) : Decimal :=
  if x.isZero then ⟨0, 0⟩
  else
    let d := search tie x (scale x) 17 1
    strip (Nat.toDigits 10 d.digits).length d

end Decimal

end ClauseSql
