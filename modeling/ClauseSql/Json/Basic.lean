import ClauseSql.Number.Binary64

/-! JSON values. Integers are those between `-2 ^ 63` and `2 ^ 64`; every other number is a double. -/
namespace ClauseSql

inductive Json where
  | null
  | bool (b : Bool)
  | integer (i : Int)
  | float (x : Binary64)
  | string (s : String)
  | array (items : List Json)
  /-- Fields in the order in which they are written; names may repeat. -/
  | object (fields : List (String × Json))

end ClauseSql
