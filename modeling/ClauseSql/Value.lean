import ClauseSql.Calendar.Moment

/-! The values that literals stand for, and the types of values. -/
namespace ClauseSql

inductive ValueType where
  | string
  | number
  | boolean
  | date
  | dateTime
  | time
  | null
  deriving DecidableEq, Repr

namespace ValueType

def all : List ValueType := [string, number, boolean, date, dateTime, time, null]

def name : ValueType → String
  | string => "string"
  | number => "number"
  | boolean => "boolean"
  | date => "date"
  | dateTime => "datetime"
  | time => "time"
  | null => "null"

def ofName? (name : String) : Option ValueType := all.find? fun type => type.name == name

def isTemporal : ValueType → Bool
  | date => true
  | dateTime => true
  | _ => false

/-- Null goes with every type, and dates go with date-times. -/
def comparable (a b : ValueType) : Bool :=
  a == null || b == null || (a.isTemporal && b.isTemporal) || a == b

theorem comparable_comm (a b : ValueType) : a.comparable b = b.comparable a := by
  cases a <;> cases b <;> rfl

end ValueType

inductive Value where
  | null
  | bool (b : Bool)
  | integer (i : Int)
  | float (x : Binary64)
  | text (s : String)
  | date (d : Date)
  | moment (m : Moment)
  deriving DecidableEq, Repr

namespace Value

def type : Value → ValueType
  | null => .null
  | bool _ => .boolean
  | integer _ => .number
  | float _ => .number
  | text _ => .string
  | date _ => .date
  | moment _ => .dateTime

def isNull : Value → Bool
  | null => true
  | _ => false

def display : Value → String
  | null => "null"
  | bool b => if b then "true" else "false"
  | integer i => String.ofList (Notation.intText i)
  | float x => String.ofList x.text
  | text s => s
  | date d => String.ofList d.text
  | moment m => String.ofList m.text

def leastInteger : Int := -0x8000000000000000

def greatestInteger : Int := 0x7fffffffffffffff

def isInteger (i : Int) : Bool := leastInteger ≤ i && i ≤ greatestInteger

def looksFractional (cs : List Char) : Bool := cs.any fun c => c == '.' || c == 'e' || c == 'E'

/-- An integer, if the text has neither point nor exponent and the number is in range; else the
nearest double. -/
def number? (cs : List Char) : Option Value :=
  match (if looksFractional cs then none else (Notation.integer? cs).filter isInteger) with
  | some i => some (.integer i)
  | none => (Notation.binary64? cs).map .float

end Value

end ClauseSql
