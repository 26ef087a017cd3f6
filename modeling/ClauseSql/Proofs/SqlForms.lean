import ClauseSql.Sql.Generation

/-! The forms in which a dialect writes calls and arithmetic. A form is a list of segments, as a
template is. The forms of a dialect can be told apart by what they write: whatever stands in their
slots, two different forms come to a point where one has another character than the other. -/
namespace ClauseSql

open Template

def isColumnChar (c : Char) : Bool := Text.isNameChar c || c == '.'

def isStop (c : Char) : Bool := !isColumnChar c && c != '('

namespace Template

def literals : List Segment → List Char
  | [] => []
  | .text c :: rest => c :: literals rest
  | .slot _ :: rest => literals rest

def slots : List Segment → List Nat
  | [] => []
  | .text _ :: rest => slots rest
  | .slot digits :: rest => (index? digits).toList ++ slots rest

def isColumnSegment : Segment → Bool
  | .text c => isColumnChar c
  | .slot _ => false

def startsWith (test : Char → Bool) : List Segment → Bool
  | .text c :: _ => test c
  | _ => false

/-- A slot is followed by a character that ends whatever the slot holds, and a word is followed by
a character that is no part of it. -/
def spaced : List Segment → Bool
  | [] => true
  | .text c :: rest => (!isColumnChar c || startsWith (fun _ => true) rest) && spaced rest
  | .slot _ :: rest => startsWith isStop rest && spaced rest

end Template

def bracket (depth : Nat) (c : Char) : Option Nat :=
  if c = '(' then some (depth + 1)
  else if c = ')' then if depth = 0 then none else some (depth - 1)
  else some depth

def nest (depth : Nat) (cs : List Char) : Option Nat := cs.foldlM bracket depth

inductive Form where
  | call (text : String) (arity : Nat)
  | arithmetic (op : Arithmetic)
  deriving DecidableEq, Repr

namespace Form

def arity : Form → Nat
  | call _ arity => arity
  | arithmetic _ => 2

def segments : Form → List Segment
  | call text _ => Template.segments text.toList
  | arithmetic op =>
    .text '(' :: .slot ['0'] ::
      ((SqlOperator.ofArithmetic op).text.toList.map .text ++ [.slot ['1'], .text ')'])

def numbered (f : Form) : Bool :=
  (f.segments.all fun
    | .text _ => true
    | .slot digits => (index? digits).any (· < f.arity)) &&
  (List.range f.arity).all fun i => (slots f.segments).contains i

/-- The first bracket of a form that begins with one is closed at its end, and not before. -/
def enclosed (f : Form) : Bool :=
  match f.segments with
  | .text c :: rest =>
    c != '(' || rest.getLast? == some (.text ')') && nest 0 (literals rest.dropLast) == some 0
  | _ => false

end Form

namespace Template

/-- What is left to compare when a slot that stands before `rest` meets the text of `other`: the slot
holds a column, a placeholder or one of the forms. -/
def readings (forms : List Form) (rest other : List Segment) :
    List (List Segment × List Segment) :=
  (rest, other.dropWhile isColumnSegment) :: (.text '?' :: rest, other) ::
    forms.map fun f => (f.segments ++ rest, other)

/-- Whether two lists of segments may write texts of which one begins with the other. The search goes
to a limited depth; what it leaves open counts as such a case. -/
def clash (forms : List Form) : Nat → List Segment → List Segment → Bool
  | 0, _, _ => true
  | _, [], _ => true
  | _, _, [] => true
  | depth + 1, .text c :: p, .text d :: q => c == d && clash forms depth p q
  | depth + 1, .slot _ :: p, .slot _ :: q => clash forms depth p q
  | depth + 1, .slot _ :: p, .text c :: q =>
    (readings forms p (.text c :: q)).any fun (p, q) => clash forms depth p q
  | depth + 1, .text c :: p, .slot _ :: q =>
    (readings forms q (.text c :: p)).any fun (q, p) => clash forms depth p q

end Template

namespace Dialect

/-- The calls that the dialect can write, except that a text from an index to its end is left out
where it looks like one of some length. -/
def calls (d : Dialect) : List Form :=
  Function.all.flatMap fun function => (List.range 4).filterMap fun arity =>
    if function.signature.acceptsArity arity ∧
        ¬(d = .sqlServer ∧ function = .substring ∧ arity = 2) then
      (d.template? function arity).map fun text => .call text arity
    else none

def forms (d : Dialect) : List Form :=
  [.arithmetic .add, .arithmetic .sub, .arithmetic .mul, .arithmetic .div, .arithmetic .mod] ++
    d.calls

/-- Decided in one go for each dialect, so that the texts of its templates are taken apart once. -/
theorem forms_checked (d : Dialect) : ∀ f ∈ d.forms,
    (f.numbered = true ∧ f.enclosed = true ∧ nest 0 (literals f.segments) = some 0) ∧
    (spaced f.segments = true ∧
      startsWith (· == '(') (f.segments.dropWhile isColumnSegment) = true) ∧
    ∀ g ∈ d.forms, f ≠ g → clash d.forms 60 f.segments g.segments = false := by
  cases d <;> decide +kernel

section

variable {d : Dialect} {f g : Form} (member : f ∈ d.forms)
include member

theorem forms_numbered : f.numbered = true := (d.forms_checked f member).1.1

theorem forms_enclosed : f.enclosed = true := (d.forms_checked f member).1.2.1

theorem forms_balanced : nest 0 (literals f.segments) = some 0 := (d.forms_checked f member).1.2.2

theorem forms_spaced : spaced f.segments = true := (d.forms_checked f member).2.1.1

theorem forms_opened : startsWith (· == '(') (f.segments.dropWhile isColumnSegment) = true :=
  (d.forms_checked f member).2.1.2

theorem forms_apart (other : g ∈ d.forms) (different : f ≠ g) :
    clash d.forms 60 f.segments g.segments = false :=
  (d.forms_checked f member).2.2 g other different

end

end Dialect

end ClauseSql
