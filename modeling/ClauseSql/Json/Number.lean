import ClauseSql.Json.Basic
import ClauseSql.Number.Notation

/-! How a JSON number gets its value. An integer that fits is taken exactly. Otherwise the digits are
gathered in a 64-bit significand, those that no longer fit are dropped, and the significand is scaled
by one power of ten; each of these steps rounds to the nearest double. -/
namespace ClauseSql.Json

structure NumberText where
  negative : Bool
  whole : List Char
  places : List Char
  /-- The sign and the digits of the exponent. -/
  exponent : Option (Bool × List Char)

def greatestSignificand : Nat := 0xffffffffffffffff

/-- A significand and the number of whole digits that were dropped. -/
def gatherWhole (digits : List Char) : Nat × Nat :=
  digits.foldl (fun (significand, dropped) c =>
    let next := 10 * significand + Notation.digitValue c
    if dropped = 0 ∧ next ≤ greatestSignificand then (next, 0) else (significand, dropped + 1)) (0, 0)

def gatherPlaces : Nat → List Char → Nat × Nat
  | significand, [] => (significand, 0)
  | significand, c :: cs =>
    let next := 10 * significand + Notation.digitValue c
    if next ≤ greatestSignificand then
      let (result, taken) := gatherPlaces next cs
      (result, taken + 1)
    else (significand, 0)

def mul (x y : Binary64) : Binary64 :=
  .ofRatio false (x.ratio.1 * y.ratio.1) (x.ratio.2 * y.ratio.2)

def div (x y : Binary64) : Binary64 :=
  .ofRatio false (x.ratio.1 * y.ratio.2) (x.ratio.2 * y.ratio.1)

def tenTo (power : Nat) : Binary64 := .ofDecimal false 1 power

def greatestPower : Nat := 308

/-- Scales a double by a power of ten, downwards in several steps if need be. There is no result if
it would be infinite. -/
def scale? (x : Binary64) (power : Int) : Option Binary64 :=
  if 0 ≤ power then
    if power ≤ greatestPower then some (mul x (tenTo power.toNat)) |>.filter Binary64.isFinite
    else if x.isZero then some x
    else none
  else
    let down := (-power).toNat
    if down ≤ greatestPower then some (div x (tenTo down))
    else if down ≤ 2 * greatestPower then
      some (div (div x (tenTo greatestPower)) (tenTo (down - greatestPower)))
    else some (.ofMagnitude false 0)

def greatestExponent : Nat := 0x7fffffff

def float? (negative : Bool) (significand : Nat) (power : Int) (exponent : Option (Bool × List Char)) :
    Option Binary64 :=
  let x := Binary64.ofRatio false significand 1
  let signed := Option.map fun (y : Binary64) => Binary64.ofMagnitude negative y.magnitude
  match exponent with
  | none => signed (scale? x power)
  | some (negativeExponent, digits) =>
    let n := Notation.ofDigits digits
    if n ≤ greatestExponent then
      signed (scale? x (if negativeExponent then power - n else power + n))
    else if significand ≠ 0 ∧ ¬negativeExponent then none
    else some (.ofMagnitude negative 0)

def ofNumber? (t : NumberText) : Option Json :=
  let (significand, dropped) := gatherWhole t.whole
  let isWhole := t.places.isEmpty && t.exponent.isNone && dropped == 0
  if isWhole && !t.negative then some (.integer significand)
  else if isWhole && 1 ≤ significand && significand ≤ 0x8000000000000000 then some (.integer (-significand))
  else
    let (significand, taken) := gatherPlaces significand t.places
    (float? t.negative significand ((dropped : Int) - taken) t.exponent).map .float

end ClauseSql.Json
