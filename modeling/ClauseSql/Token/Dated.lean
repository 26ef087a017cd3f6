import ClauseSql.Token.Basic
import ClauseSql.Text.Digit
import ClauseSql.Text.Letter

/-! Date and date-time literals, recognised by their shape alone. Whether the digits name a day is
decided when the literal gets its value. -/
namespace ClauseSql.Dated

open Text

/-- The beginning of the text that has the given shape, in which `0` stands for any digit. -/
def shaped? : List Char → List Char → Option (List Char)
  | [], _ => some []
  | _ :: _, [] => none
  | p :: ps, c :: cs =>
    if (if p = '0' then isDecimalDigit c else c == p) then (shaped? ps cs).map (c :: ·) else none

def zone? : List Char → Option (List Char)
  | [] => none
  | c :: cs =>
    if c = 'Z' then some [c]
    else if c = '+' ∨ c = '-' then (shaped? ['0', '0', ':', '0', '0'] cs).map (c :: ·)
    else none

def fraction : List Char → List Char
  | [] => []
  | c :: cs =>
    let places := (cs.takeWhile isDecimalDigit).take 9
    if c = '.' ∧ places ≠ [] then c :: places else []

def seconds (cs : List Char) : List Char :=
  match shaped? [':', '0', '0'] cs with
  | none => []
  | some whole => whole ++ fraction (cs.drop whole.length)

def time? (cs : List Char) : Option (List Char) := do
  let minutes ← shaped? ['T', '0', '0', ':', '0', '0'] cs
  let most := minutes ++ seconds (cs.drop minutes.length)
  let zone ← zone? (cs.drop most.length)
  return most ++ zone

def day? (cs : List Char) : Option (List Char) :=
  shaped? ['0', '0', '0', '0', '-', '0', '0', '-', '0', '0'] cs

def longest? (cs : List Char) : Option (LiteralKind × List Char) :=
  (day? cs).map fun day =>
    match time? (cs.drop day.length) with
    | none => (.date, day)
    | some time => (.dateTime, day ++ time)

def cannotFollow (c : Char) : Bool := isNameChar c || c == '.' || c == ':'

def literal? (cs : List Char) : Option (LiteralKind × List Char) :=
  (longest? cs).filter fun (_, lexeme) => !startsWith cannotFollow (cs.drop lexeme.length)

end ClauseSql.Dated
