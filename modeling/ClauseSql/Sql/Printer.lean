import ClauseSql.Sql.Basic
import ClauseSql.Sql.Template

/-! SQL expressions written out. The text and the arguments come from one list of pieces, so a
placeholder and its argument cannot get out of step. -/
namespace ClauseSql

inductive Piece where
  | text (s : String)
  | param (value : Value)
  deriving DecidableEq, Repr

structure Printed where
  pieces : List Piece
  complete : Bool
  deriving DecidableEq, Repr

namespace Printed

def ofText (s : String) : Printed := ⟨[.text s], true⟩

def ofParam (value : Value) : Printed := ⟨[.param value], true⟩

def empty : Printed := ⟨[], true⟩

def failed : Printed := ⟨[], false⟩

def append (a b : Printed) : Printed :=
  if a.complete then ⟨a.pieces ++ b.pieces, b.complete⟩ else a

instance : Append Printed := ⟨append⟩

def piecesText (pieces : List Piece) : String :=
  String.join (pieces.map fun
    | .text s => s
    | .param _ => "?")

def piecesArgs (pieces : List Piece) : List Value :=
  pieces.filterMap fun
    | .text _ => none
    | .param value => some value

def text (p : Printed) : String := piecesText p.pieces

def args (p : Printed) : List Value := piecesArgs p.pieces

@[simp] theorem piecesArgs_append (a b : List Piece) :
    piecesArgs (a ++ b) = piecesArgs a ++ piecesArgs b := by
  simp [piecesArgs]

end Printed

namespace Template

def fill (args : List Printed) : List Segment → Printed
  | [] => .empty
  | .text c :: rest => .ofText (String.singleton c) ++ fill args rest
  | .slot digits :: rest =>
    match (index? digits).bind fun index => args[index]? with
    | some arg => arg ++ fill args rest
    | none => .failed

end Template

namespace Sql

open Printed

mutual
def print : Sql → Printed
  | .column text => ofText text
  | .param value => ofParam value
  | .template text args => Template.fill (printAll args) (Template.segments text.toList)
  | .binary op left right parenthesized =>
    if parenthesized then
      ofText "(" ++ (print left ++ (ofText op.text ++ (print right ++ ofText ")")))
    else print left ++ (ofText op.text ++ print right)
  | .group inner => ofText "(" ++ (print inner ++ ofText ")")
  | .not inner => ofText "NOT (" ++ (print inner ++ ofText ")")
  | .isNull inner negated => print inner ++ ofText (if negated then " IS NOT NULL" else " IS NULL")
  | .like target pattern escape =>
    print target ++ (ofText " LIKE " ++ (ofParam (.text pattern) ++ ofText (" " ++ escape)))
  | .constant value => ofText (if value then "1 = 1" else "1 = 0")
  | .named inner name opening closing =>
    print inner ++ ofText (" AS " ++ opening ++ name ++ closing)
  | .ordered inner descending => print inner ++ ofText (if descending then " DESC" else " ASC")
def printAll : List Sql → List Printed
  | [] => []
  | e :: es => print e :: printAll es
end

end Sql

end ClauseSql
