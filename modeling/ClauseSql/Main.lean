import ClauseSql.CommandLine

/-! The program: `--metadata FILE [--dialect NAME] [--not-implemented] filter|compute|orderby TEXT`. -/
namespace ClauseSql.CommandLine

structure Options where
  metadata : Option String := none
  dialect : String := "sqlite"
  policy : UnsupportedPolicy := .badRequest
  clause : Option Clause := none
  expression : Option String := none

def clause? (word : String) : Option Clause :=
  if word = "filter" then some .filter
  else if word = "compute" then some .compute
  else if word = "orderby" then some .orderBy
  else none

def options? (o : Options) : List String → Option Options
  | [] => some o
  | "--not-implemented" :: args => options? { o with policy := .notImplemented } args
  | "--metadata" :: file :: args => options? { o with metadata := some file } args
  | "--dialect" :: name :: args => options? { o with dialect := name } args
  | word :: args =>
    match o.clause, o.expression with
    | none, _ =>
      match clause? word with
      | some clause => options? { o with clause := some clause } args
      | none => none
    | some _, none => options? { o with expression := some word } args
    | some _, some _ => none

def usage : String :=
  "usage: --metadata FILE [--dialect NAME] [--not-implemented] filter|compute|orderby EXPRESSION"

end ClauseSql.CommandLine

open ClauseSql CommandLine in
/-- The file is opened only for a dialect that exists. -/
def main (args : List String) : IO UInt32 := do
  match options? {} args with
  | some { metadata := some file, dialect, policy, clause := some clause,
           expression := some expression } =>
    try
      let known := (Dialect.ofName? dialect).isSome
      let entity ← if known then IO.FS.readFile file else pure ""
      let output := output policy (run { entity, dialect, policy, clause, expression })
      IO.print output.stdout
      IO.eprint output.stderr
      return output.exit
    catch problem =>
      IO.eprintln (toString problem)
      return 1
  | _ =>
    IO.eprintln usage
    return 2
