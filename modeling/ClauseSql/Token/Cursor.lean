import ClauseSql.Token.Scan

/-! A place in a source from which tokens are taken one by one. The cursor looks at bytes and counts bytes,
and texts are cut out of the source between two places. A cut inside a character has no text. Passing over
single bytes, or a failure in front of a character of several bytes, may leave the cursor inside one. -/
namespace ClauseSql

structure Cursor where
  source : List Char
  offset : Nat
  deriving DecidableEq, Repr

namespace Cursor

open Text

inductive Next where
  | finished
  | token (token : Token)
  | error (error : LexError)
  /-- A text was to be cut inside a character. -/
  | split
  deriving DecidableEq, Repr

inductive Halt where
  | error (error : LexError)
  | split
  deriving DecidableEq, Repr

abbrev Step (α : Type) := Except Halt α × Cursor

def ofSource (source : String) : Cursor := ⟨source.toList, 0⟩

def isEmpty (c : Cursor) : Bool := byteLength c.source ≤ c.offset

def peekAt? (c : Cursor) (n : Nat) : Option UInt8 := byteAt? c.source (c.offset + n)

def peek? (c : Cursor) : Option UInt8 := c.peekAt? 0

def consume (c : Cursor) (byte : UInt8) : Bool × Cursor :=
  if c.peek? = some byte then (true, { c with offset := c.offset + 1 }) else (false, c)

def remaining? (c : Cursor) : Option String := (dropBytes? c.source c.offset).map String.ofList

/-- A byte is tested as the character that it would be by itself. -/
def onByte (test : Char → Bool) (byte : UInt8) : Bool := test (Char.ofNat byte.toNat)

def seesAt (c : Cursor) (n : Nat) (test : Char → Bool) : Bool := (c.peekAt? n).any (onByte test)

def sees (c : Cursor) (test : Char → Bool) : Bool := c.seesAt 0 test

def moved (c : Cursor) (n : Nat) : Cursor := { c with offset := c.offset + n }

def ahead (c : Cursor) : List UInt8 := (bytes c.source).drop c.offset

def consumeWhile (c : Cursor) (test : Char → Bool) : Cursor :=
  c.moved (c.ahead.takeWhile (onByte test)).length

def textFrom? (c : Cursor) (start : Nat) : Option (List Char) := slice? c.source start c.offset

def malformed (start : Nat) (shown : Cursor) : Halt :=
  match shown.textFrom? start with
  | some text => .error (.malformedNumber start (String.ofList text))
  | none => .split

def fraction (c : Cursor) : Bool × Cursor :=
  if c.sees (· == '.') then
    let c := c.moved 1
    (c.sees Char.isDigit, c.consumeWhile Char.isDigit)
  else (true, c)

def exponent (c : Cursor) : Bool × Cursor :=
  if c.sees fun b => b == 'e' || b == 'E' then
    let c := c.moved 1
    let c := if c.sees fun b => b == '+' || b == '-' then c.moved 1 else c
    (c.sees Char.isDigit, c.consumeWhile Char.isDigit)
  else (true, c)

def number (start : Nat) (c : Cursor) : Step TokenKind :=
  let refused (c : Cursor) : Step TokenKind :=
    (.error (malformed start (c.consumeWhile continuesNumber)), c)
  let (complete, c) := (c.consumeWhile Char.isDigit).fraction
  if complete then
    let (complete, c) := c.exponent
    if complete && !c.sees continuesNumber then (.ok (.literal .number), c) else refused c
  else refused c

/-- A fraction without whole part, behind its sign. It takes no exponent, and a malformed one is shown up to
the first byte that does not fit. -/
def signedFraction (start : Nat) (c : Cursor) : Step TokenKind :=
  let c := (c.moved 1).consumeWhile Char.isDigit
  if c.sees continuesNumber then (.error (malformed start (c.moved 1)), c)
  else (.ok (.literal .number), c)

def signed (start : Nat) (sign : Char) (c : Cursor) : Step TokenKind :=
  if c.sees Char.isDigit then c.number start
  else if c.sees (· == '.') && c.seesAt 1 Char.isDigit then c.signedFraction start
  else (.error (.error (.unexpectedCharacter start sign)), c)

def dated (c : Cursor) : Step (Option LiteralKind) :=
  match dropBytes? c.source c.offset with
  | none => (.error .split, c)
  | some cs =>
    match Dated.longest? cs with
    | none => (.ok none, c)
    | some (kind, lexeme) =>
      let stop := c.moved (byteLength lexeme)
      if stop.sees Dated.cannotFollow then (.ok none, c) else (.ok (some kind), stop)

def digit (start : Nat) (c : Cursor) : Step TokenKind :=
  match c.dated with
  | (.error halt, c) => (.error halt, c)
  | (.ok (some kind), c) => (.ok (.literal kind), c)
  | (.ok none, c) => c.number start

def quotedLength? : List UInt8 → Option Nat
  | [] => none
  | byte :: rest =>
    if onByte (· == '\'') byte then
      match rest with
      | [] => some 1
      | next :: more => if onByte (· == '\'') next then (quotedLength? more).map (· + 2) else some 1
    else (quotedLength? rest).map (· + 1)

def string (start : Nat) (c : Cursor) : Step TokenKind :=
  match quotedLength? c.ahead with
  | some n => (.ok (.literal .string), c.moved n)
  | none => (.error (.error (.unterminatedString start)), c.moved c.ahead.length)

def nameLength : List UInt8 → Nat
  | [] => 0
  | byte :: rest =>
    if onByte isNameChar byte ||
        (onByte (· == '/') byte && rest.head?.any (onByte isNameStart)) then
      nameLength rest + 1
    else 0

def name (start : Nat) (c : Cursor) : Step TokenKind :=
  let stop := c.moved (nameLength c.ahead)
  let word := ((bytes c.source).take stop.offset).drop start
  let kind :=
    if word.any (onByte (· == '/')) then .path
    else match Keyword.find? (word.map fun byte => Char.ofNat byte.toNat) with
      | some kind => kind
      | none => if stop.sees (· == '(') then .functionName else .identifier
  (.ok kind, stop)

def unexpected (start : Nat) (c : Cursor) : Step TokenKind :=
  match dropBytes? c.source start with
  | none => (.error .split, c)
  | some cs => (.error (.error (.unexpectedCharacter start (cs.headD '\uFFFD'))), c)

def scan (c : Cursor) (first : Char) : Step TokenKind :=
  let start := c.offset
  let c := c.moved 1
  if first = '(' then (.ok .openParen, c)
  else if first = ')' then (.ok .closeParen, c)
  else if first = ',' then (.ok .comma, c)
  else if first = '\'' then c.string start
  else if first = '+' ∨ first = '-' then c.signed start first
  else if first.isDigit then digit start { c with offset := start }
  else if isNameStart first then c.name start
  else c.unexpected start

def next (c : Cursor) : Next × Cursor :=
  let c := c.consumeWhile isBlank
  match c.peek? with
  | none => (.finished, c)
  | some byte =>
    match c.scan (Char.ofNat byte.toNat) with
    | (.error (.error error), stop) => (.error error, stop)
    | (.error .split, stop) => (.split, stop)
    | (.ok kind, stop) =>
      match stop.textFrom? c.offset with
      | some lexeme => (.token ⟨kind, c.offset, lexeme⟩, stop)
      | none => (.split, stop)

end Cursor

end ClauseSql
