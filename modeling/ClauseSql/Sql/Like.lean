import ClauseSql.Model.Basic

/-! Patterns that match a user's text literally: the wildcards and the backslash itself are escaped
with a backslash. -/
namespace ClauseSql.Like

def isSpecial (c : Char) : Bool := c == '%' || c == '_' || c == '\\'

def escape : List Char → List Char
  | [] => []
  | c :: cs => if isSpecial c then '\\' :: c :: escape cs else c :: escape cs

def escapeText (s : String) : String := String.ofList (escape s.toList)

def pattern? (operator : Operator) (text : String) : Option String :=
  match operator with
  | .contains => some ("%" ++ escapeText text ++ "%")
  | .startsWith => some (escapeText text ++ "%")
  | .endsWith => some ("%" ++ escapeText text)
  | _ => none

end ClauseSql.Like
