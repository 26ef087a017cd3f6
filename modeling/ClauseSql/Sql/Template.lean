import ClauseSql.Number.Notation
import ClauseSql.Text.Digit

/-! Texts with numbered slots. A slot is an opening brace, one or more decimal digits and a closing
brace; the slots are the leftmost ones that do not overlap, and all other text stands for itself. -/
namespace ClauseSql.Template

inductive Segment where
  | text (c : Char)
  | slot (digits : List Char)
  deriving DecidableEq, Repr

def slot? (cs : List Char) : Option (List Char) :=
  let digits := cs.takeWhile Text.isDecimalDigit
  match digits, cs.drop digits.length with
  | _ :: _, c :: _ => if c = '\x7d' then some digits else none
  | _, _ => none

def segments (cs : List Char) : List Segment :=
  match cs with
  | [] => []
  | c :: rest =>
    match (if c = '\x7b' then slot? rest else none) with
    | some digits => .slot digits :: segments (rest.drop (digits.length + 1))
    | none => .text c :: segments rest
termination_by cs.length
decreasing_by
  · simp only [List.length_drop, List.length_cons]
    omega
  · simp

/-- The number in a slot. Digits other than the ASCII ones are no number. -/
def index? (digits : List Char) : Option Nat :=
  if digits.all Char.isDigit then some (Notation.ofDigits digits) else none

end ClauseSql.Template
