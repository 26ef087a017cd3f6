import ClauseSql.Json.Number
import ClauseSql.Reading

/-! Reading JSON text. Arrays and objects may be nested up to a given depth. -/
namespace ClauseSql.Json

def isBlank (c : Char) : Bool := c == ' ' || c == '\n' || c == '\t' || c == '\r'

def skipBlanks (cs : List Char) : List Char := cs.dropWhile isBlank

theorem length_skipBlanks (cs : List Char) : (skipBlanks cs).length ≤ cs.length :=
  (List.dropWhile_sublist isBlank).length_le

def afterBlanks {α : Type} {cs : List Char} (r : Reading α (skipBlanks cs)) : Reading α cs :=
  ⟨r.value, r.rest, Nat.lt_of_lt_of_le r.shorter (length_skipBlanks cs)⟩

def hexValue? (c : Char) : Option Nat :=
  if c.isDigit then some (c.toNat - 48)
  else if 'a' ≤ c ∧ c ≤ 'f' then some (c.toNat - 87)
  else if 'A' ≤ c ∧ c ≤ 'F' then some (c.toNat - 55)
  else none

def unit? (a b c d : Char) : Option Nat := do
  let a ← hexValue? a
  let b ← hexValue? b
  let c ← hexValue? c
  let d ← hexValue? d
  return ((a * 16 + b) * 16 + c) * 16 + d

def simpleEscape? (c : Char) : Option Char :=
  if c = '"' ∨ c = '\\' ∨ c = '/' then some c
  else if c = 'b' then some '\x08'
  else if c = 'f' then some '\x0c'
  else if c = 'n' then some '\n'
  else if c = 'r' then some '\r'
  else if c = 't' then some '\t'
  else none

def lowHalf? : (cs : List Char) → Option (Reading Nat cs)
  | '\\' :: 'u' :: a :: b :: c :: d :: rest => do
    let low ← unit? a b c d
    if 0xdc00 ≤ low ∧ low ≤ 0xdfff then
      return ⟨low - 0xdc00, rest, by simp only [List.length_cons]; omega⟩
    else none
  | _ => none

/-- The character behind `\u`, which takes a second escape if the first one is half of a pair. -/
def unicodeEscape? : (cs : List Char) → Option (Reading Char cs)
  | a :: b :: c :: d :: rest => do
    let unit ← unit? a b c d
    if 0xdc00 ≤ unit ∧ unit ≤ 0xdfff then none
    else if 0xd800 ≤ unit ∧ unit ≤ 0xdbff then
      let low ← lowHalf? rest
      return ⟨Char.ofNat (0x10000 + (unit - 0xd800) * 0x400 + low.value), low.rest,
        Nat.lt_of_lt_of_le low.shorter (by simp only [List.length_cons]; omega)⟩
    else return ⟨Char.ofNat unit, rest, by simp only [List.length_cons]; omega⟩
  | _ => none

def character? : (cs : List Char) → Option (Reading Char cs)
  | [] => none
  | '\\' :: 'u' :: rest => (unicodeEscape? rest).map fun r => (r.behind 'u').behind '\\'
  | '\\' :: c :: rest =>
    (simpleEscape? c).map fun value => ⟨value, rest, by simp only [List.length_cons]; omega⟩
  | c :: rest => if c = '\\' ∨ c.toNat < 0x20 then none else some ⟨c, rest, by simp⟩

def stringRest? (cs : List Char) : Option (Reading (List Char) cs) :=
  match cs with
  | [] => none
  | '"' :: rest => some ⟨[], rest, by simp⟩
  | c :: rest =>
    match character? (c :: rest) with
    | none => none
    | some first =>
      match stringRest? first.rest with
      | none => none
      | some more =>
        some ⟨first.value :: more.value, more.rest, Nat.lt_trans more.shorter first.shorter⟩
termination_by cs.length
decreasing_by exact first.shorter

def isZeroLed : List Char → Bool
  | '0' :: _ :: _ => true
  | _ => false

def places? : List Char → Option (List Char)
  | '.' :: cs =>
    let digits := cs.takeWhile Char.isDigit
    if digits.isEmpty then none else some digits
  | _ => some []

def exponent? : List Char → Option (Option (Nat × Bool × List Char))
  | [] => some none
  | c :: cs =>
    if c = 'e' ∨ c = 'E' then
      let (sign, negative) := match cs with
        | '+' :: _ => (1, false)
        | '-' :: _ => (1, true)
        | _ => (0, false)
      let digits := (cs.drop sign).takeWhile Char.isDigit
      if digits.isEmpty then none else some (some (1 + sign + digits.length, negative, digits))
    else some none

/-- The parts of a number, and how many characters they take. -/
def numberText? (cs : List Char) : Option (NumberText × Nat) := do
  let negative := cs.head? == some '-'
  let sign := if negative then 1 else 0
  let whole := (cs.drop sign).takeWhile Char.isDigit
  if whole.isEmpty || isZeroLed whole then none
  else
    let used := sign + whole.length
    let places ← places? (cs.drop used)
    let used := if places.isEmpty then used else used + 1 + places.length
    let exponent ← exponent? (cs.drop used)
    match exponent with
    | none => return (⟨negative, whole, places, none⟩, used)
    | some (length, sign, digits) => return (⟨negative, whole, places, some (sign, digits)⟩, used + length)

def number? (cs : List Char) : Option (Reading Json cs) := do
  let (text, used) ← numberText? cs
  let value ← ofNumber? text
  if h : 0 < used ∧ 0 < cs.length then
    return ⟨value, cs.drop used, by rw [List.length_drop]; omega⟩
  else none

/-- Reads a value whose text begins at once, without blanks. -/
abbrev Rule := (cs : List Char) → Option (Reading Json cs)

def items? (rule : Rule) (cs : List Char) : Option (Reading (List Json) cs) :=
  match rule (skipBlanks cs) with
  | none => none
  | some first =>
    have shorter := (afterBlanks first).shorter
    match h : skipBlanks first.rest with
    | [] => none
    | c :: rest =>
      have less : rest.length < cs.length := by
        have := length_skipBlanks first.rest
        rw [h, List.length_cons] at this
        simp only [afterBlanks] at shorter
        omega
      if c = ']' then some ⟨[first.value], rest, less⟩
      else if c = ',' then
        match items? rule rest with
        | none => none
        | some more => some ⟨first.value :: more.value, more.rest, Nat.lt_trans more.shorter less⟩
      else none
termination_by cs.length

def field? (rule : Rule) (cs : List Char) : Option (Reading (String × Json) cs) :=
  match h : skipBlanks cs with
  | '"' :: rest =>
    match stringRest? rest with
    | none => none
    | some name =>
      match h' : skipBlanks name.rest with
      | ':' :: rest' =>
        match rule (skipBlanks rest') with
        | none => none
        | some value =>
          some ⟨(String.ofList name.value, value.value), value.rest, by
            have a := length_skipBlanks cs
            have b := length_skipBlanks name.rest
            have c := name.shorter
            have d := (afterBlanks value).shorter
            rw [h, List.length_cons] at a
            rw [h', List.length_cons] at b
            simp only [afterBlanks] at d
            omega⟩
      | _ => none
  | _ => none

def fields? (rule : Rule) (cs : List Char) : Option (Reading (List (String × Json)) cs) :=
  match field? rule cs with
  | none => none
  | some first =>
    match h : skipBlanks first.rest with
    | [] => none
    | c :: rest =>
      have less : rest.length < cs.length := by
        have a := length_skipBlanks first.rest
        have b := first.shorter
        rw [h, List.length_cons] at a
        omega
      if c = '\x7d' then some ⟨[first.value], rest, less⟩
      else if c = ',' then
        match fields? rule rest with
        | none => none
        | some more => some ⟨first.value :: more.value, more.rest, Nat.lt_trans more.shorter less⟩
      else none
termination_by cs.length

def word? (word : List Char) (value : Json) (cs : List Char) : Option (Reading Json cs) :=
  if h : word.isPrefixOf cs ∧ 0 < word.length ∧ 0 < cs.length then
    some ⟨value, cs.drop word.length, by rw [List.length_drop]; omega⟩
  else none

def value? (depth : Nat) : Rule := fun cs =>
  match cs with
  | [] => none
  | c :: rest =>
    if c = '"' then
      (stringRest? rest).map fun s => (s.map fun text => .string (String.ofList text)).behind c
    else if c = '[' then
      match depth with
      | 0 => none
      | depth + 1 =>
        match h : skipBlanks rest with
        | ']' :: after => some ⟨.array [], after, by
            have := length_skipBlanks rest
            rw [h, List.length_cons] at this
            simp only [List.length_cons]
            omega⟩
        | _ => (items? (value? depth) rest).map fun r => (r.map .array).behind c
    else if c = '\x7b' then
      match depth with
      | 0 => none
      | depth + 1 =>
        match h : skipBlanks rest with
        | '\x7d' :: after => some ⟨.object [], after, by
            have := length_skipBlanks rest
            rw [h, List.length_cons] at this
            simp only [List.length_cons]
            omega⟩
        | _ => (fields? (value? depth) rest).map fun r => (r.map .object).behind c
    else if c = 'n' then word? "null".toList .null (c :: rest)
    else if c = 't' then word? "true".toList (.bool true) (c :: rest)
    else if c = 'f' then word? "false".toList (.bool false) (c :: rest)
    else number? (c :: rest)

def parseTo (depth : Nat) (text : String) : Option Json :=
  match value? depth (skipBlanks text.toList) with
  | none => none
  | some r => if (skipBlanks r.rest).isEmpty then some r.value else none

def depthLimit : Nat := 127

def parse (text : String) : Option Json := parseTo depthLimit text

end ClauseSql.Json
