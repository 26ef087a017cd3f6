/-! The operators of the clause language that stand between two operands, and their spelling. -/
namespace ClauseSql

inductive Comparison where
  | eq
  | ne
  | gt
  | ge
  | lt
  | le
  deriving DecidableEq, Repr

inductive Connective where
  | and
  | or
  deriving DecidableEq, Repr

inductive Arithmetic where
  | mul
  | div
  | add
  | sub
  | mod
  deriving DecidableEq, Repr

inductive BinaryOperator where
  | comparison (op : Comparison)
  | connective (op : Connective)
  | arithmetic (op : Arithmetic)
  deriving DecidableEq, Repr

def Comparison.word : Comparison → String
  | eq => "eq"
  | ne => "ne"
  | gt => "gt"
  | ge => "ge"
  | lt => "lt"
  | le => "le"

def Connective.word : Connective → String
  | and => "and"
  | or => "or"

def Arithmetic.word : Arithmetic → String
  | mul => "mul"
  | div => "div"
  | add => "add"
  | sub => "sub"
  | mod => "mod"

namespace BinaryOperator

def word : BinaryOperator → String
  | comparison op => op.word
  | connective op => op.word
  | arithmetic op => op.word

def isComparison : BinaryOperator → Bool
  | comparison _ => true
  | _ => false

/-- How strongly an operator holds the operand on its left and on its right. The right power is
the higher one, so operators of one rank group to the left. -/
def powers : BinaryOperator → Nat × Nat
  | connective .or => (10, 11)
  | connective .and => (20, 21)
  | comparison _ => (40, 41)
  | arithmetic .add => (50, 51)
  | arithmetic .sub => (50, 51)
  | arithmetic .mul => (60, 61)
  | arithmetic .div => (60, 61)
  | arithmetic .mod => (60, 61)

def notPower : Nat := 30

theorem powers_snd (op : BinaryOperator) : op.powers.2 = op.powers.1 + 1 := by
  rcases op with _ | op | op
  · rfl
  · cases op <;> rfl
  · cases op <;> rfl

end BinaryOperator

end ClauseSql
