import ClauseSql.Number.Power

/-! Double precision numbers as their 64-bit words: a sign, eleven bits of exponent and fifty-two
bits of fraction. Rounding is done on exact ratios of natural numbers. -/
namespace ClauseSql

structure Binary64 where
  bits : UInt64
  deriving DecidableEq, Repr

namespace Binary64

def signBit : Nat := 0x8000000000000000

def infinityBits : Nat := 0x7ff0000000000000

def hiddenBit : Nat := 0x10000000000000

def isNegative (x : Binary64) : Bool := signBit ≤ x.bits.toNat

def magnitude (x : Binary64) : Nat := x.bits.toNat % signBit

def isFinite (x : Binary64) : Bool := x.magnitude < infinityBits

def isInfinite (x : Binary64) : Bool := x.magnitude == infinityBits

def isNaN (x : Binary64) : Bool := infinityBits < x.magnitude

def isZero (x : Binary64) : Bool := x.magnitude == 0

def ofMagnitude (negative : Bool) (word : Nat) : Binary64 :=
  ⟨((if negative then signBit else 0) + word).toUInt64⟩

def infinity (negative : Bool) : Binary64 := ofMagnitude negative infinityBits

def nan : Binary64 := ⟨0x7ff8000000000000⟩

/-- A finite number without its sign is `significand * 2 ^ (exponent - 1074)`. -/
def exponent (x : Binary64) : Nat := x.magnitude / hiddenBit - 1

def significand (x : Binary64) : Nat :=
  if x.magnitude < hiddenBit then x.magnitude else x.magnitude % hiddenBit + hiddenBit

/-- The quotient, rounded to the nearest natural number, halves to the even one. -/
def roundDiv (num den : Nat) : Nat :=
  let low := num / den
  let rest := 2 * (num % den)
  if rest < den ∨ (rest = den ∧ low % 2 = 0) then low else low + 1

def logRatio (num den : Nat) : Int :=
  let guess : Int := (num.log2 : Int) - (den.log2 : Int)
  if num * pow2 (-guess).toNat < den * pow2 guess.toNat then guess - 1 else guess

/-- The nearest number to a ratio. A significand has 53 bits, or fewer at the lowest exponent; a
ratio too large for any finite number gives infinity. -/
def ofRatio (negative : Bool) (num den : Nat) : Binary64 :=
  if num = 0 then ofMagnitude negative 0
  else
    let e := (logRatio num den + 1022).toNat
    let rounded := roundDiv (num * pow2 (1074 - e)) (den * pow2 (e - 1074))
    ofMagnitude negative (min (e * hiddenBit + rounded) infinityBits)

/-- The nearest number to `digits * 10 ^ power`. A power far out of range is decided without
computing it. -/
def ofDecimal (negative : Bool) (digits : Nat) (power : Int) : Binary64 :=
  let reach : Int := (Nat.toDigits 10 digits).length + power
  if digits = 0 ∨ reach < -330 then ofMagnitude negative 0
  else if 310 < reach then infinity negative
  else ofRatio negative (digits * pow10 power.toNat) (pow10 (-power).toNat)

def ratio (x : Binary64) : Nat × Nat :=
  (x.significand * pow2 (x.exponent - 1074), pow2 (1074 - x.exponent))

def hex (x : Binary64) : String :=
  let digits := Nat.toDigits 16 x.bits.toNat
  String.ofList (List.replicate (16 - digits.length) '0' ++ digits)

end Binary64

end ClauseSql
