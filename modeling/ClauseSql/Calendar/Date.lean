import ClauseSql.Number.Notation
import ClauseSql.Text.Space

/-! Days of the proleptic Gregorian calendar, read from and written as year, month and day. -/
namespace ClauseSql

structure Date where
  year : Int
  month : Nat
  day : Nat
  deriving DecidableEq, Repr

namespace Date

def isLeapYear (year : Int) : Bool :=
  year % 4 == 0 && (year % 100 != 0 || year % 400 == 0)

def daysInMonth (year : Int) (month : Nat) : Nat :=
  if month = 2 then (if isLeapYear year then 29 else 28)
  else if month = 4 ∨ month = 6 ∨ month = 9 ∨ month = 11 then 30
  else if 1 ≤ month ∧ month ≤ 12 then 31
  else 0

def firstYear : Int := -262143

def lastYear : Int := 262142

def isDay (d : Date) : Bool :=
  firstYear ≤ d.year && d.year ≤ lastYear && 1 ≤ d.day && d.day ≤ daysInMonth d.year d.month

inductive ReadError where
  | outOfRange
  | invalidCharacter
  | tooShort
  | tooLong
  deriving DecidableEq, Repr

def ReadError.message : ReadError → String
  | outOfRange => "input is out of range"
  | invalidCharacter => "input contains invalid characters"
  | tooShort => "premature end of input"
  | tooLong => "trailing input"

def numberLimit : Nat := 0x7fffffffffffffff

/-- A run of at least one and at most `most` digits; without a bound it takes all of them. -/
def number (most : Option Nat) (cs : List Char) : Except ReadError (Nat × List Char) :=
  let run := cs.takeWhile Char.isDigit
  let digits := match most with
    | none => run
    | some n => run.take n
  match digits, cs with
  | [], [] => .error .tooShort
  | [], _ :: _ => .error .invalidCharacter
  | _ :: _, _ =>
    if Notation.ofDigits digits ≤ numberLimit then
      .ok (Notation.ofDigits digits, cs.drop digits.length)
    else .error .outOfRange

def readYear (cs : List Char) : Except ReadError (Int × List Char) := do
  match cs with
  | [] => .error .tooShort
  | c :: rest =>
    let (value, left) ←
      if c = '-' then (number none rest).map fun (n, left) => (-(n : Int), left)
      else if c = '+' then (number none rest).map fun (n, left) => ((n : Int), left)
      else (number (some 4) cs).map fun (n, left) => ((n : Int), left)
    if -0x80000000 ≤ value ∧ value < 0x80000000 then .ok (value, left) else .error .outOfRange

def twoDigits (least greatest : Nat) (cs : List Char) : Except ReadError (Nat × List Char) := do
  let (n, left) ← number (some 2) cs
  if least ≤ n ∧ n ≤ greatest then .ok (n, left) else .error .outOfRange

def dash : List Char → Except ReadError (List Char)
  | [] => .error .tooShort
  | c :: cs => if c = '-' then .ok cs else .error .invalidCharacter

def skipSpaces (cs : List Char) : List Char := cs.dropWhile Text.isSpace

/-- Reads year, month and day with dashes between them. White space may stand before each number;
whether the day exists is looked at last. -/
def read (cs : List Char) : Except ReadError Date := do
  let (year, cs) ← readYear (skipSpaces cs)
  let cs ← dash cs
  let (month, cs) ← twoDigits 1 12 (skipSpaces cs)
  let cs ← dash cs
  let (day, cs) ← twoDigits 1 31 (skipSpaces cs)
  if !cs.isEmpty then .error .tooLong
  else
    let date : Date := ⟨year, month, day⟩
    if date.isDay then .ok date else .error .outOfRange

/-- Years from 0 to 9999 have four digits and no sign; other years have a sign. -/
def yearText (year : Int) : List Char :=
  let digits := Notation.padded 4 year.natAbs
  if year < 0 then '-' :: digits
  else if 9999 < year then '+' :: digits
  else digits

def text (d : Date) : List Char :=
  yearText d.year ++ '-' :: Notation.padded 2 d.month ++ '-' :: Notation.padded 2 d.day

end Date

end ClauseSql
