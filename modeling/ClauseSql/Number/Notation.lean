import ClauseSql.Number.Shortest

/-! Numbers as text: reading integers and decimals, and writing doubles without an exponent. -/
namespace ClauseSql

namespace Notation

def digitValue (c : Char) : Nat := c.toNat - 48

def ofDigits (cs : List Char) : Nat := cs.foldl (fun n c => 10 * n + digitValue c) 0

def areDigits (cs : List Char) : Bool := !cs.isEmpty && cs.all Char.isDigit

def signed : List Char → Bool × List Char
  | [] => (false, [])
  | c :: cs => if c = '-' then (true, cs) else if c = '+' then (false, cs) else (false, c :: cs)

def integer? (cs : List Char) : Option Int :=
  let (negative, digits) := signed cs
  if areDigits digits then some (if negative then -(ofDigits digits : Int) else ofDigits digits)
  else none

/-- The power of ten after an exponent mark; without a mark it is zero. -/
def power? : List Char → Option Int
  | [] => some 0
  | c :: cs => if c = 'e' ∨ c = 'E' then integer? cs else none

def decimal? (cs : List Char) : Option Decimal := do
  let whole := cs.takeWhile Char.isDigit
  let rest := cs.drop whole.length
  let (places, rest) := match rest with
    | [] => ([], [])
    | c :: more =>
      if c = '.' then
        let places := more.takeWhile Char.isDigit
        (places, more.drop places.length)
      else ([], rest)
  if whole.isEmpty && places.isEmpty then none
  else
    let power ← power? rest
    return ⟨ofDigits (whole ++ places), power - places.length⟩

def binary64? (cs : List Char) : Option Binary64 :=
  let (negative, body) := signed cs
  let word := String.ofList (body.map Char.toLower)
  if word = "inf" ∨ word = "infinity" then some (.infinity negative)
  else if word = "nan" then
    some (.ofMagnitude negative Binary64.nan.magnitude)
  else (decimal? body).map fun d => .ofDecimal negative d.digits d.power

def natText (n : Nat) : List Char := Nat.toDigits 10 n

def zeros (n : Nat) : List Char := List.replicate n '0'

def padded (width n : Nat) : List Char := zeros (width - (natText n).length) ++ natText n

def positional (d : Decimal) : List Char :=
  let digits := natText d.digits
  let places := (-d.power).toNat
  if places = 0 then digits ++ zeros d.power.toNat
  else if places < digits.length then
    digits.take (digits.length - places) ++ '.' :: digits.drop (digits.length - places)
  else '0' :: '.' :: (zeros (places - digits.length) ++ digits)

def intText (i : Int) : List Char :=
  if i < 0 then '-' :: natText i.natAbs else natText i.natAbs

end Notation

/-- Doubles are written in full with the fewest digits that name them; of two equally near decimals
the larger one is taken. -/
def Binary64.text (x : Binary64) : List Char :=
  if x.isNaN then ['N', 'a', 'N']
  else
    let body := if x.isInfinite then ['i', 'n', 'f'] else Notation.positional (Decimal.shortest .up x)
    if x.isNegative then '-' :: body else body

end ClauseSql
