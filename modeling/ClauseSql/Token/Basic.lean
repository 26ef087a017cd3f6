import ClauseSql.Expr.Operator
import ClauseSql.Text.Bytes
import ClauseSql.Text.Quoted

/-! Tokens: a kind, the byte position of the first character, and the characters themselves. -/
namespace ClauseSql

structure Span where
  start : Nat
  stop : Nat
  deriving DecidableEq, Repr

inductive LiteralKind where
  | string
  | number
  | boolean
  | null
  | date
  | dateTime
  deriving DecidableEq, Repr

/-- A path such as `Address/City` is one token. An identifier directly followed by an opening
parenthesis is a function name. -/
inductive TokenKind where
  | identifier
  | path
  | functionName
  | literal (kind : LiteralKind)
  | operator (op : BinaryOperator)
  | not
  | asWord
  | openParen
  | closeParen
  | comma
  | eof
  deriving DecidableEq, Repr

structure Token where
  kind : TokenKind
  start : Nat
  lexeme : List Char
  deriving DecidableEq, Repr

namespace Token

def length (t : Token) : Nat := Text.byteLength t.lexeme

def stop (t : Token) : Nat := t.start + t.length

def span (t : Token) : Span := ⟨t.start, t.stop⟩

def text (t : Token) : String := String.ofList t.lexeme

def contents (t : Token) : String :=
  if t.kind = .literal .string then String.ofList (Text.undoubleQuotes (t.lexeme.drop 1).dropLast)
  else t.text

end Token

inductive LexError where
  | unterminatedString (position : Nat)
  | unexpectedCharacter (position : Nat) (char : Char)
  | malformedNumber (position : Nat) (text : String)
  deriving DecidableEq, Repr

namespace LexError

def position : LexError → Nat
  | unterminatedString p => p
  | unexpectedCharacter p _ => p
  | malformedNumber p _ => p

def message : LexError → String
  | unterminatedString p => s!"unterminated string literal starting at {p}"
  | unexpectedCharacter p c => s!"unexpected character '{c}' at {p}"
  | malformedNumber p text => s!"malformed number literal '{text}' at {p}"

end LexError

end ClauseSql
