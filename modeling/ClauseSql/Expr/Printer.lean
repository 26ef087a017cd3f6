import ClauseSql.Expr.Basic

/-! Expressions written out with every operator in parentheses. A text that cannot be read, or a
broken reference, leaves the whole without a written form. -/
namespace ClauseSql.Expr

def infixText (op : BinaryOperator) (left right : List Char) : List Char :=
  '(' :: left ++ ' ' :: op.word.toList ++ ' ' :: right ++ [')']

def listText : List (List Char) → List Char
  | [] => []
  | [text] => text
  | text :: texts => text ++ ',' :: ' ' :: listText texts

def directionText (descending : Bool) : List Char :=
  if descending then "desc".toList else "asc".toList

mutual
def print? {β : Type} : Expr (Option (List Char)) β → Option (List Char)
  | .literal _ text => text
  | .path text => text
  | .not operand => (print? operand).map fun text => "(not ".toList ++ text ++ [')']
  | .binary op left right => do
    let left ← print? left
    let right ← print? right
    return infixText op left right
  | .call name args => do
    let name ← name
    let args ← printAll? args
    return name ++ '(' :: listText args ++ [')']
  | .named value name => do
    let value ← print? value
    let name ← name
    return value ++ " as ".toList ++ name
  | .ordered value descending => do
    let value ← print? value
    return value ++ ' ' :: directionText descending
  | .broken _ => none
  | .brokenCall _ _ => none
def printAll? {β : Type} : List (Expr (Option (List Char)) β) → Option (List (List Char))
  | [] => some []
  | e :: es => do
    let text ← print? e
    let texts ← printAll? es
    return text :: texts
end

end ClauseSql.Expr
