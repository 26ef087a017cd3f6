import ClauseSql.Token.Dated
import ClauseSql.Token.Keyword
import ClauseSql.Token.Numeral

/-! One token at a time. `scan` looks at text that starts with a character other than a blank and
gives the kind of the token there with the characters after the first one, or the error together
with the number of bytes it has passed over. -/
namespace ClauseSql.Token

open Text

structure Failure where
  error : LexError
  consumed : Nat
  deriving DecidableEq, Repr

def nameRest : List Char → List Char
  | [] => []
  | c :: cs =>
    if isNameChar c || (c == '/' && startsWith isNameStart cs) then c :: nameRest cs else []

def nameKind (name rest : List Char) : TokenKind :=
  if name.contains '/' then .path
  else match Keyword.find? name with
    | some kind => kind
    | none => if startsWith (· == '(') rest then .functionName else .identifier

def scanName (c : Char) (cs : List Char) : TokenKind × List Char :=
  let tail := nameRest cs
  (nameKind (c :: tail) (cs.drop tail.length), tail)

def scanNumber (start : Nat) (before cs : List Char) : Except Failure (List Char) :=
  let number := Numeral.scan cs
  if number.wellFormed then .ok (before ++ number.taken)
  else .error
    { error := .malformedNumber start (String.ofList (before ++ Numeral.malformed cs number))
      consumed := byteLength (before ++ number.taken) }

/-- A sign and a fraction without whole part. Here the number takes no exponent, and a malformed
one is shown up to the first character that does not fit. -/
def scanFraction (start : Nat) (sign : Char) (cs : List Char) : Except Failure (List Char) :=
  let places := Numeral.digits cs
  let taken := sign :: '.' :: places
  match cs.drop places.length with
  | [] => .ok taken
  | c :: _ =>
    if continuesNumber c then
      .error
        { error := .malformedNumber start (String.ofList (taken ++ [c]))
          consumed := byteLength taken }
    else .ok taken

def scanSigned (start : Nat) (sign : Char) (cs : List Char) : Except Failure (List Char) :=
  match cs with
  | [] => refused
  | c :: rest =>
    if c.isDigit then scanNumber start [sign] cs
    else if c = '.' ∧ startsWith Char.isDigit rest then scanFraction start sign rest
    else refused
where
  refused := .error { error := .unexpectedCharacter start sign, consumed := 1 }

def scanDigit (start : Nat) (cs : List Char) : Except Failure (TokenKind × List Char) :=
  match Dated.literal? cs with
  | some (kind, lexeme) => .ok (.literal kind, lexeme)
  | none => (scanNumber start [] cs).map fun lexeme => (.literal .number, lexeme)

def scanString (start : Nat) (cs : List Char) : Except Failure (List Char) :=
  match quotedRest? cs with
  | some (body, _) => .ok body
  | none =>
    .error { error := .unterminatedString start, consumed := byteLength ('\'' :: cs) }

def scan (start : Nat) (c : Char) (cs : List Char) : Except Failure (TokenKind × List Char) :=
  if c = '(' then .ok (.openParen, [])
  else if c = ')' then .ok (.closeParen, [])
  else if c = ',' then .ok (.comma, [])
  else if c = '\'' then (scanString start cs).map fun body => (.literal .string, body)
  else if c = '+' ∨ c = '-' then
    (scanSigned start c cs).map fun lexeme => (.literal .number, lexeme.tail)
  else if c.isDigit then (scanDigit start (c :: cs)).map fun (kind, lexeme) => (kind, lexeme.tail)
  else if isNameStart c then .ok (scanName c cs)
  else .error { error := .unexpectedCharacter start c, consumed := 1 }

def tokensFrom (position : Nat) (cs : List Char) : Except LexError (List Token) :=
  let start := position + byteLength (cs.takeWhile isBlank)
  match visible : cs.dropWhile isBlank with
  | [] => .ok [⟨.eof, start, []⟩]
  | c :: rest =>
    match scan start c rest with
    | .error failure => .error failure.error
    | .ok (kind, tail) =>
      let token : Token := ⟨kind, start, c :: tail⟩
      have : rest.length - tail.length < cs.length := by
        have shorter := (List.dropWhile_sublist isBlank (l := cs)).length_le
        simp only [visible, List.length_cons] at shorter
        omega
      match tokensFrom token.stop (rest.drop tail.length) with
      | .error error => .error error
      | .ok tokens => .ok (token :: tokens)
termination_by cs.length

/-- The tokens of a source, an end marker last, or the first error. -/
def tokenize (source : String) : Except LexError (List Token) := tokensFrom 0 source.toList

end ClauseSql.Token
