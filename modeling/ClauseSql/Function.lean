import ClauseSql.Text.Letter
import ClauseSql.Value

/-! The functions of the clause language and the arguments they take. -/
namespace ClauseSql

inductive Function where
  | contains
  | startsWith
  | endsWith
  | indexOf
  | length
  | substring
  | toLower
  | toUpper
  | trim
  | concat
  | year
  | month
  | day
  | hour
  | minute
  | second
  | fractionalSeconds
  | totalOffsetMinutes
  | date
  | time
  | now
  | round
  | floor
  | ceiling
  deriving DecidableEq, Repr

inductive Param where
  | string
  | number
  | temporal
  | dateTime
  | timeOfDay
  deriving DecidableEq, Repr

namespace Param

def accepts : Param → ValueType → Bool
  | string, type => type == .string
  | number, type => type == .number
  | temporal, type => type == .date || type == .dateTime
  | dateTime, type => type == .dateTime
  | timeOfDay, type => type == .dateTime || type == .time

def display : Param → String
  | string => "a string"
  | number => "a number"
  | temporal => "a date or date-time"
  | dateTime => "a date-time"
  | timeOfDay => "a date-time or time"

theorem accepts_null (p : Param) : p.accepts .null = false := by cases p <;> rfl

end Param

structure Signature where
  required : List Param
  optional : List Param
  returns : ValueType
  deriving DecidableEq, Repr

namespace Signature

def params (s : Signature) : List Param := s.required ++ s.optional

def acceptsArity (s : Signature) (count : Nat) : Bool :=
  s.required.length ≤ count && count ≤ s.params.length

def param? (s : Signature) (index : Nat) : Option Param := s.params[index]?

def arityText (s : Signature) : String :=
  if s.optional.isEmpty then s!"{s.required.length}"
  else s!"{s.required.length} to {s.params.length}"

end Signature

/-- The functions that test a text against a pattern. They stand where a condition is expected, and
nowhere else. -/
inductive StringMatch where
  | contains
  | startsWith
  | endsWith
  deriving DecidableEq, Repr

namespace Function

def all : List Function :=
  [contains, startsWith, endsWith, indexOf, length, substring, toLower, toUpper, trim, concat,
   year, month, day, hour, minute, second, fractionalSeconds, totalOffsetMinutes, date, time, now,
   round, floor, ceiling]

def name : Function → String
  | contains => "contains"
  | startsWith => "startswith"
  | endsWith => "endswith"
  | indexOf => "indexof"
  | length => "length"
  | substring => "substring"
  | toLower => "tolower"
  | toUpper => "toupper"
  | trim => "trim"
  | concat => "concat"
  | year => "year"
  | month => "month"
  | day => "day"
  | hour => "hour"
  | minute => "minute"
  | second => "second"
  | fractionalSeconds => "fractionalseconds"
  | totalOffsetMinutes => "totaloffsetminutes"
  | date => "date"
  | time => "time"
  | now => "now"
  | round => "round"
  | floor => "floor"
  | ceiling => "ceiling"

def ofName? (name : List Char) : Option Function :=
  all.find? fun f => f.name.toList == Text.lower name

def signature : Function → Signature
  | contains => ⟨[.string, .string], [], .boolean⟩
  | startsWith => ⟨[.string, .string], [], .boolean⟩
  | endsWith => ⟨[.string, .string], [], .boolean⟩
  | indexOf => ⟨[.string, .string], [], .number⟩
  | length => ⟨[.string], [], .number⟩
  | substring => ⟨[.string, .number], [.number], .string⟩
  | toLower => ⟨[.string], [], .string⟩
  | toUpper => ⟨[.string], [], .string⟩
  | trim => ⟨[.string], [], .string⟩
  | concat => ⟨[.string, .string], [], .string⟩
  | year => ⟨[.temporal], [], .number⟩
  | month => ⟨[.temporal], [], .number⟩
  | day => ⟨[.temporal], [], .number⟩
  | hour => ⟨[.timeOfDay], [], .number⟩
  | minute => ⟨[.timeOfDay], [], .number⟩
  | second => ⟨[.timeOfDay], [], .number⟩
  | fractionalSeconds => ⟨[.timeOfDay], [], .number⟩
  | totalOffsetMinutes => ⟨[.dateTime], [], .number⟩
  | date => ⟨[.dateTime], [], .date⟩
  | time => ⟨[.dateTime], [], .time⟩
  | now => ⟨[], [], .dateTime⟩
  | round => ⟨[.number], [], .number⟩
  | floor => ⟨[.number], [], .number⟩
  | ceiling => ⟨[.number], [], .number⟩

def stringMatch? : Function → Option StringMatch
  | contains => some .contains
  | startsWith => some .startsWith
  | endsWith => some .endsWith
  | _ => none

theorem mem_all (f : Function) : f ∈ all := by cases f <;> decide

end Function

end ClauseSql
