import ClauseSql.Error
import ClauseSql.Sql.Printer

/-! A text under construction with the arguments of its placeholders. What was written before a
failure stays. -/
namespace ClauseSql

structure Writer where
  sql : String := ""
  args : List Value := []
  deriving DecidableEq, Repr

namespace Writer

def param (w : Writer) (value : Value) : Writer := ⟨w.sql ++ "?", w.args ++ [value]⟩

def write (w : Writer) (p : Printed) : Writer := ⟨w.sql ++ p.text, w.args ++ p.args⟩

def render (w : Writer) (e : Sql) : Except Error Unit × Writer :=
  let printed := e.print
  (if printed.complete then .ok () else .error (.unsupported .badTemplate), w.write printed)

/-- Writes an expression on its own and gives back its text. Its arguments stay with the writer;
after a failure, so does the text. -/
def column (w : Writer) (e : Sql) : Except Error String × Writer :=
  let printed := e.print
  if printed.complete then (.ok printed.text, { w with args := w.args ++ printed.args })
  else (.error (.unsupported .badTemplate), w.write printed)

end Writer

end ClauseSql
