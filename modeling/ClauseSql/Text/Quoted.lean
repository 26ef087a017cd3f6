/-! Text inside single quotes. A quote that belongs to the text is written twice. -/
namespace ClauseSql.Text

def doubleQuotes : List Char → List Char
  | [] => []
  | c :: cs => if c = '\'' then '\'' :: '\'' :: doubleQuotes cs else c :: doubleQuotes cs

/-- Each pair of quotes, taken from the left, becomes one; a quote without partner stays. -/
def undoubleQuotes : List Char → List Char
  | [] => []
  | '\'' :: '\'' :: cs => '\'' :: undoubleQuotes cs
  | c :: cs => c :: undoubleQuotes cs

def quote (cs : List Char) : List Char := '\'' :: (doubleQuotes cs ++ ['\''])

theorem undoubleQuotes_doubleQuotes (cs : List Char) : undoubleQuotes (doubleQuotes cs) = cs := by
  induction cs with
  | nil => rfl
  | cons c cs ih => by_cases h : c = '\'' <;> simp [doubleQuotes, undoubleQuotes, h, ih]

/-- The quoted text that starts after an opening quote, closing quote included, and what follows
it. There is none if the closing quote is missing. -/
def quotedRest? : List Char → Option (List Char × List Char)
  | [] => none
  | '\'' :: '\'' :: cs => (quotedRest? cs).map fun (body, rest) => ('\'' :: '\'' :: body, rest)
  | '\'' :: cs => some (['\''], cs)
  | c :: cs => (quotedRest? cs).map fun (body, rest) => (c :: body, rest)

end ClauseSql.Text
