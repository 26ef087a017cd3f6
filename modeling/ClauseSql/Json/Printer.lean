import ClauseSql.Json.Basic
import ClauseSql.Number.Notation

/-! Writing JSON, on one line or with an indented line for every item and field. -/
namespace ClauseSql.Json

def hexDigit (n : Nat) : Char := Nat.digitChar n

def escapeChar (c : Char) : List Char :=
  if c = '"' then ['\\', '"']
  else if c = '\\' then ['\\', '\\']
  else if c = '\x08' then ['\\', 'b']
  else if c = '\x0c' then ['\\', 'f']
  else if c = '\n' then ['\\', 'n']
  else if c = '\r' then ['\\', 'r']
  else if c = '\t' then ['\\', 't']
  else if c.toNat < 0x20 then
    ['\\', 'u', '0', '0', hexDigit (c.toNat / 16), hexDigit (c.toNat % 16)]
  else [c]

def quoted (s : String) : String := String.ofList ('"' :: s.toList.flatMap escapeChar ++ ['"'])

def exponentText (e : Int) : List Char :=
  'e' :: (if e < 0 then Notation.intText e else '+' :: Notation.intText e)

/-- Doubles are written in full, with at least one place, if they are below `10 ^ 16` and have at most
four zeros between the point and the first digit; else with an exponent. Of two equally near decimals
the even one is taken. -/
def floatText (x : Binary64) : List Char :=
  let d := Decimal.shortest .even x
  let digits := Notation.natText d.digits
  let point : Int := digits.length + d.power
  let body :=
    if 0 ≤ d.power ∧ point ≤ 16 then Notation.positional d ++ ['.', '0']
    else if -5 < point ∧ point ≤ 16 then Notation.positional d
    else
      let first := digits.take 1
      let others := digits.drop 1
      (if others.isEmpty then first else first ++ '.' :: others)
        ++ exponentText (point - 1)
  if x.isNegative then '-' :: body else body

def scalarText : Json → String
  | .null => "null"
  | .bool b => if b then "true" else "false"
  | .integer i => String.ofList (Notation.intText i)
  | .float x => if x.isFinite then String.ofList (floatText x) else "null"
  | .string s => quoted s
  | .array _ => "[]"
  | .object _ => "\x7b\x7d"

mutual
def compact : Json → String
  | .array items => "[" ++ String.intercalate "," (compactItems items) ++ "]"
  | .object fields => "\x7b" ++ String.intercalate "," (compactFields fields) ++ "\x7d"
  | scalar => scalarText scalar
def compactItems : List Json → List String
  | [] => []
  | item :: items => compact item :: compactItems items
def compactFields : List (String × Json) → List String
  | [] => []
  | (name, value) :: fields => (quoted name ++ ":" ++ compact value) :: compactFields fields
end

def newLine (indent : Nat) : String := "\n" ++ "".pushn ' ' (2 * indent)

def block (opening closing : String) (indent : Nat) (lines : List String) : String :=
  opening ++ newLine (indent + 1) ++ String.intercalate ("," ++ newLine (indent + 1)) lines
    ++ newLine indent ++ closing

mutual
def pretty (indent : Nat) : Json → String
  | .array (item :: items) =>
    block "[" "]" indent (pretty (indent + 1) item :: prettyItems (indent + 1) items)
  | .object ((name, value) :: fields) =>
    block "\x7b" "\x7d" indent
      ((quoted name ++ ": " ++ pretty (indent + 1) value) :: prettyFields (indent + 1) fields)
  | scalar => scalarText scalar
def prettyItems (indent : Nat) : List Json → List String
  | [] => []
  | item :: items => pretty indent item :: prettyItems indent items
def prettyFields (indent : Nat) : List (String × Json) → List String
  | [] => []
  | (name, value) :: fields =>
    (quoted name ++ ": " ++ pretty indent value) :: prettyFields indent fields
end

end ClauseSql.Json
