import ClauseSql.Function

/-! The SQL dialects and what differs between them. -/
namespace ClauseSql

inductive Dialect where
  | sqlite
  | postgres
  | mysql
  | sqlServer
  deriving DecidableEq, Repr

namespace Dialect

def all : List Dialect := [sqlite, postgres, mysql, sqlServer]

def name : Dialect → String
  | sqlite => "sqlite"
  | postgres => "postgres"
  | mysql => "mysql"
  | sqlServer => "sqlserver"

def spellings : List (String × Dialect) :=
  [("sqlite", sqlite), ("postgres", postgres), ("postgresql", postgres), ("mysql", mysql),
   ("sqlserver", sqlServer), ("mssql", sqlServer)]

def ofExactName? (name : String) : Option Dialect := spellings.lookup name

def ofName? (name : String) : Option Dialect := ofExactName? (Text.lowerCase name)

/-- What follows every pattern. Patterns are escaped with one backslash, and this is how the dialect
writes that character. -/
def likeEscape : Dialect → String
  | mysql => "ESCAPE '\\\\'"
  | _ => "ESCAPE '\\'"

def quotes : Dialect → String × String
  | mysql => ("`", "`")
  | sqlServer => ("[", "]")
  | _ => ("\"", "\"")

def sqliteTemplate (arity : Nat) : Function → Option String
  | .contains => none
  | .startsWith => none
  | .endsWith => none
  | .indexOf => some "(INSTR({0}, {1}) - 1)"
  | .length => some "LENGTH({0})"
  | .substring => some (if arity = 3 then "SUBSTR({0}, {1} + 1, {2})" else "SUBSTR({0}, {1} + 1)")
  | .toLower => some "LOWER({0})"
  | .toUpper => some "UPPER({0})"
  | .trim => some "TRIM({0})"
  | .concat => some "({0} || {1})"
  | .year => some "CAST(strftime('%Y', {0}) AS INTEGER)"
  | .month => some "CAST(strftime('%m', {0}) AS INTEGER)"
  | .day => some "CAST(strftime('%d', {0}) AS INTEGER)"
  | .hour => some "CAST(strftime('%H', {0}) AS INTEGER)"
  | .minute => some "CAST(strftime('%M', {0}) AS INTEGER)"
  | .second => some "CAST(strftime('%S', {0}) AS INTEGER)"
  | .fractionalSeconds =>
    some "(CAST(strftime('%f', {0}) AS REAL) - CAST(strftime('%S', {0}) AS INTEGER))"
  | .totalOffsetMinutes => none
  | .date => some "date({0})"
  | .time => some "time({0})"
  | .now => some "datetime('now')"
  | .round => some "ROUND({0})"
  | .floor => some "(CAST({0} AS INTEGER) - ({0} < CAST({0} AS INTEGER)))"
  | .ceiling => some "(CAST({0} AS INTEGER) + ({0} > CAST({0} AS INTEGER)))"

def postgresTemplate (arity : Nat) : Function → Option String
  | .contains => none
  | .startsWith => none
  | .endsWith => none
  | .indexOf => some "(STRPOS({0}, {1}) - 1)"
  | .length => some "LENGTH({0})"
  | .substring =>
    some (if arity = 3 then "SUBSTRING({0} FROM {1} + 1 FOR {2})" else "SUBSTRING({0} FROM {1} + 1)")
  | .toLower => some "LOWER({0})"
  | .toUpper => some "UPPER({0})"
  | .trim => some "TRIM({0})"
  | .concat => some "({0} || {1})"
  | .year => some "CAST(EXTRACT(YEAR FROM {0}) AS INTEGER)"
  | .month => some "CAST(EXTRACT(MONTH FROM {0}) AS INTEGER)"
  | .day => some "CAST(EXTRACT(DAY FROM {0}) AS INTEGER)"
  | .hour => some "CAST(EXTRACT(HOUR FROM {0}) AS INTEGER)"
  | .minute => some "CAST(EXTRACT(MINUTE FROM {0}) AS INTEGER)"
  | .second => some "CAST(FLOOR(EXTRACT(SECOND FROM {0})) AS INTEGER)"
  | .fractionalSeconds => some "(EXTRACT(SECOND FROM {0}) - FLOOR(EXTRACT(SECOND FROM {0})))"
  | .totalOffsetMinutes => some "CAST(EXTRACT(TIMEZONE FROM {0}) / 60 AS INTEGER)"
  | .date => some "CAST({0} AS DATE)"
  | .time => some "CAST({0} AS TIME)"
  | .now => some "NOW()"
  | .round => some "ROUND({0})"
  | .floor => some "FLOOR({0})"
  | .ceiling => some "CEILING({0})"

def mysqlTemplate (arity : Nat) : Function → Option String
  | .contains => none
  | .startsWith => none
  | .endsWith => none
  | .indexOf => some "(LOCATE({1}, {0}) - 1)"
  | .length => some "CHAR_LENGTH({0})"
  | .substring =>
    some (if arity = 3 then "SUBSTRING({0}, {1} + 1, {2})" else "SUBSTRING({0}, {1} + 1)")
  | .toLower => some "LOWER({0})"
  | .toUpper => some "UPPER({0})"
  | .trim => some "TRIM({0})"
  | .concat => some "CONCAT({0}, {1})"
  | .year => some "YEAR({0})"
  | .month => some "MONTH({0})"
  | .day => some "DAY({0})"
  | .hour => some "HOUR({0})"
  | .minute => some "MINUTE({0})"
  | .second => some "SECOND({0})"
  | .fractionalSeconds => some "(MICROSECOND({0}) / 1000000)"
  | .totalOffsetMinutes => none
  | .date => some "DATE({0})"
  | .time => some "TIME({0})"
  | .now => some "NOW()"
  | .round => some "ROUND({0})"
  | .floor => some "FLOOR({0})"
  | .ceiling => some "CEILING({0})"

def sqlServerTemplate (arity : Nat) : Function → Option String
  | .contains => none
  | .startsWith => none
  | .endsWith => none
  | .indexOf => some "(CHARINDEX({1}, {0}) - 1)"
  | .length => some "LEN({0})"
  | .substring =>
    some (if arity = 3 then "SUBSTRING({0}, {1} + 1, {2})"
      else "SUBSTRING({0}, {1} + 1, LEN({0}))")
  | .toLower => some "LOWER({0})"
  | .toUpper => some "UPPER({0})"
  | .trim => some "LTRIM(RTRIM({0}))"
  | .concat => some "CONCAT({0}, {1})"
  | .year => some "DATEPART(year, {0})"
  | .month => some "DATEPART(month, {0})"
  | .day => some "DATEPART(day, {0})"
  | .hour => some "DATEPART(hour, {0})"
  | .minute => some "DATEPART(minute, {0})"
  | .second => some "DATEPART(second, {0})"
  | .fractionalSeconds => some "(DATEPART(nanosecond, {0}) / 1000000000.0)"
  | .totalOffsetMinutes => some "DATEPART(tzoffset, {0})"
  | .date => some "CAST({0} AS DATE)"
  | .time => some "CAST({0} AS TIME)"
  | .now => some "SYSDATETIMEOFFSET()"
  | .round => some "ROUND({0}, 0)"
  | .floor => some "FLOOR({0})"
  | .ceiling => some "CEILING({0})"

/-- How a function with a number of arguments is written, with numbered slots for the arguments.
String matches are not written this way, and some functions have no counterpart. -/
def template? (d : Dialect) (function : Function) (arity : Nat) : Option String :=
  match d with
  | sqlite => sqliteTemplate arity function
  | postgres => postgresTemplate arity function
  | mysql => mysqlTemplate arity function
  | sqlServer => sqlServerTemplate arity function

end Dialect

end ClauseSql
