import ClauseSql.Token.Basic
import ClauseSql.Text.Letter

/-! Keywords. Every keyword has at most eight letters, so a word is packed into one 64-bit number,
its letters are made small all at once, and the number is compared with the packed keywords. -/
namespace ClauseSql.Keyword

def spellings : List (String × TokenKind) :=
  [("and", .operator (.connective .and)), ("or", .operator (.connective .or)), ("not", .not),
   ("eq", .operator (.comparison .eq)), ("ne", .operator (.comparison .ne)),
   ("gt", .operator (.comparison .gt)), ("ge", .operator (.comparison .ge)),
   ("lt", .operator (.comparison .lt)), ("le", .operator (.comparison .le)),
   ("mul", .operator (.arithmetic .mul)), ("div", .operator (.arithmetic .div)),
   ("add", .operator (.arithmetic .add)), ("sub", .operator (.arithmetic .sub)),
   ("mod", .operator (.arithmetic .mod)),
   ("true", .literal .boolean), ("false", .literal .boolean), ("null", .literal .null),
   ("as", .asWord)]

def pack : List Char → UInt64
  | [] => 0
  | c :: cs => c.val.toUInt64 ||| (pack cs <<< 8)

/-- A byte `b` of a name is a capital letter exactly if bit five is set in `b + 0x1f` and not in
`b + 0x05`. Setting bit five of a capital letter makes it small. -/
def lowerPacked (word : UInt64) : UInt64 :=
  word ||| ((word + 0x1f1f1f1f1f1f1f1f) &&& ~~~(word + 0x0505050505050505) &&& 0x2020202020202020)

def find? (word : List Char) : Option TokenKind :=
  if word.length ≤ 8 then
    (spellings.find? fun entry => pack entry.1.toList == lowerPacked (pack word)).map Prod.snd
  else none

end ClauseSql.Keyword
