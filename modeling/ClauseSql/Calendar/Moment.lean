import ClauseSql.Calendar.Date
import ClauseSql.Text.Bytes

/-! A local date and time with its offset from universal time. Second 60 is a leap second and may
stand in any minute. -/
namespace ClauseSql

structure Moment where
  date : Date
  hour : Nat
  minute : Nat
  second : Nat
  nanosecond : Nat
  /-- Minutes east of universal time. -/
  offset : Int
  deriving DecidableEq, Repr

namespace Moment

/-- The beginning of the text that has the given shape, in which `0` stands for an ASCII digit,
and what follows it. -/
def shaped? : List Char → List Char → Option (List Char × List Char)
  | [], cs => some ([], cs)
  | _ :: _, [] => none
  | p :: ps, c :: cs =>
    if (if p = '0' then c.isDigit else c == p) then
      (shaped? ps cs).map fun (taken, rest) => (c :: taken, rest)
    else none

def part (cs : List Char) (start length : Nat) : Nat :=
  Notation.ofDigits ((cs.drop start).take length)

/-- A point and at least one digit. Digits past the ninth are read and dropped. -/
def fraction? : List Char → Option (Nat × List Char)
  | [] => some (0, [])
  | c :: cs =>
    if c = '.' then
      let places := cs.takeWhile Char.isDigit
      let kept := places.take 9
      if places.isEmpty then none
      else some (Notation.ofDigits kept * pow10 (9 - kept.length), cs.drop places.length)
    else some (0, c :: cs)

def minusSign : Char := '\u2212'

def offset? : List Char → Option (Int × List Char)
  | [] => none
  | c :: cs =>
    if c = 'Z' ∨ c = 'z' then some (0, cs)
    else if c = '+' ∨ c = '-' ∨ c = minusSign then do
      let (digits, rest) ← shaped? ['0', '0', ':', '0', '0'] cs
      let hours := part digits 0 2
      let minutes := part digits 3 2
      if hours < 24 ∧ minutes < 60 then
        let total : Int := hours * 60 + minutes
        return (if c = '+' then total else -total, rest)
      else none
    else none

def isDivider (c : Char) : Bool := c == 'T' || c == 't' || c == ' '

def ofComplete? (cs : List Char) : Option Moment := do
  let (day, cs) ← shaped? ['0', '0', '0', '0', '-', '0', '0', '-', '0', '0'] cs
  let date : Date := ⟨part day 0 4, part day 5 2, part day 8 2⟩
  let (divider, cs) ← match cs with
    | [] => none
    | c :: cs => some (c, cs)
  let (time, cs) ← shaped? ['0', '0', ':', '0', '0', ':', '0', '0'] cs
  let (nanosecond, cs) ← fraction? cs
  let (offset, cs) ← offset? cs
  let moment : Moment :=
    { date, hour := part time 0 2, minute := part time 3 2, second := part time 6 2, nanosecond, offset }
  if isDivider divider && cs.isEmpty && date.isDay && moment.hour < 24 && moment.minute < 60
      && moment.second ≤ 60 then
    return moment
  else none

def minutesEnd : Nat := 16

/-- Inserts seconds after the minutes, if the text goes on there with something else. -/
def withSeconds? (cs : List Char) : Option (List Char) := do
  let head ← Text.takeBytes? cs minutesEnd
  match cs.drop head.length with
  | [] => none
  | c :: rest => if c = ':' then none else return head ++ ':' :: '0' :: '0' :: c :: rest

def read? (cs : List Char) : Option Moment :=
  match ofComplete? cs with
  | some moment => some moment
  | none => (withSeconds? cs).bind ofComplete?

def fractionText (nanosecond : Nat) : List Char :=
  if nanosecond = 0 then []
  else if nanosecond % 1000000 = 0 then '.' :: Notation.padded 3 (nanosecond / 1000000)
  else if nanosecond % 1000 = 0 then '.' :: Notation.padded 6 (nanosecond / 1000)
  else '.' :: Notation.padded 9 nanosecond

def offsetText (offset : Int) : List Char :=
  (if offset < 0 then '-' else '+') :: Notation.padded 2 (offset.natAbs / 60)
    ++ ':' :: Notation.padded 2 (offset.natAbs % 60)

def localText (m : Moment) : List Char :=
  m.date.text ++ 'T' :: Notation.padded 2 m.hour ++ ':' :: Notation.padded 2 m.minute
    ++ ':' :: Notation.padded 2 m.second ++ fractionText m.nanosecond

def text (m : Moment) : List Char := m.localText ++ offsetText m.offset

def textZ (m : Moment) : List Char :=
  m.localText ++ if m.offset = 0 then ['Z'] else offsetText m.offset

end Moment

end ClauseSql
