import ClauseSql.Text.Letter

/-! The shape of a number literal: digits, an optional fraction, an optional exponent. A part that
begins and cannot end, or a name character or point right behind the number, makes it malformed. -/
namespace ClauseSql.Numeral

open Text

/-- The characters read so far, and whether they can still be a number. -/
structure Scan where
  taken : List Char
  wellFormed : Bool
  deriving DecidableEq, Repr

def digits (cs : List Char) : List Char := cs.takeWhile Char.isDigit

def Scan.andThen (s : Scan) (cs : List Char) (next : List Char → Scan) : Scan :=
  if s.wellFormed then
    let t := next (cs.drop s.taken.length)
    ⟨s.taken ++ t.taken, t.wellFormed⟩
  else s

def fraction : List Char → Scan
  | [] => ⟨[], true⟩
  | c :: cs => if c = '.' then ⟨c :: digits cs, !(digits cs).isEmpty⟩ else ⟨[], true⟩

def sign : List Char → List Char
  | [] => []
  | c :: _ => if c = '+' ∨ c = '-' then [c] else []

def exponent : List Char → Scan
  | [] => ⟨[], true⟩
  | c :: cs =>
    if c = 'e' ∨ c = 'E' then
      let power := digits (cs.drop (sign cs).length)
      ⟨c :: (sign cs ++ power), !power.isEmpty⟩
    else ⟨[], true⟩

def ending (cs : List Char) : Scan := ⟨[], !startsWith continuesNumber cs⟩

def scan (cs : List Char) : Scan :=
  let whole : Scan := ⟨digits cs, true⟩
  ((whole.andThen cs fraction).andThen cs exponent).andThen cs ending

/-- The text shown for a malformed number: all that was read, and all that hangs on behind. -/
def malformed (cs : List Char) (s : Scan) : List Char :=
  s.taken ++ (cs.drop s.taken.length).takeWhile continuesNumber

end ClauseSql.Numeral
