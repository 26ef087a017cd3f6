import ClauseSql.Proofs.Erasure
import ClauseSql.Proofs.RoundTrip
import ClauseSql.Proofs.Spelling
import ClauseSql.Proofs.TypingRules

/-! Texts that a user puts into a source. A text in quotes, with its own quotes written twice, is one
token whatever it holds, and no other text is a string. It becomes the argument of a comparison and the
pattern of a string match as it was. -/
namespace ClauseSql

open Text

def Text.quoted (s : String) : String := String.ofList (quote s.toList)

namespace Lexing

open Token

theorem quotedRest?_doubleQuotes (cs : List Char) :
    quotedRest? (doubleQuotes cs ++ ['\'']) = some (doubleQuotes cs ++ ['\''], []) := by
  induction cs with
  | nil => rfl
  | cons c cs ih =>
    by_cases quote : c = '\''
    · subst quote
      simp [doubleQuotes, quotedRest?, ih]
    · simp [doubleQuotes, quotedRest?, quote, ih]

theorem quotedRest?_pairs {cs body rest : List Char} (read : quotedRest? cs = some (body, rest)) :
    ∃ inner, body = doubleQuotes inner ++ ['\''] := by
  fun_induction quotedRest? cs generalizing body rest with
  | case1 => cases read
  | case2 cs ih =>
    obtain ⟨⟨taken, left⟩, found, equal⟩ := Option.map_eq_some_iff.mp read
    cases equal
    obtain ⟨inner, rfl⟩ := ih found
    exact ⟨'\'' :: inner, rfl⟩
  | case3 cs single =>
    cases read
    exact ⟨[], rfl⟩
  | case4 c cs pair single ih =>
    obtain ⟨⟨taken, left⟩, found, equal⟩ := Option.map_eq_some_iff.mp read
    cases equal
    obtain ⟨inner, rfl⟩ := ih found
    have other : c ≠ '\'' := single
    exact ⟨c :: inner, by simp [doubleQuotes, other]⟩

theorem rescans_quote (cs : List Char) {rest : List Char} (parts : Parts rest) :
    Rescans (.literal .string) (quote cs) rest :=
  (Found.string (quotedRest?_doubleQuotes cs)).rescans rfl parts

theorem rescans_functionName (function : Function) (rest : List Char) :
    Rescans .functionName function.name.toList ('(' :: rest) := by
  have listed : ∀ f ∈ Function.all, startsWith isNameStart f.name.toList = true ∧
      nameRest f.name.toList.tail = f.name.toList.tail ∧
      nameKind f.name.toList ['('] = .functionName := by decide
  obtain ⟨letter, whole, calls⟩ := listed function function.mem_all
  generalize function.name.toList = name at letter whole calls
  cases name with
  | nil => cases letter
  | cons c cs =>
    have again : Rescans (nameKind (c :: nameRest cs) ('(' :: rest)) (c :: nameRest cs) ('(' :: rest) :=
      rescans_name cs letter rfl
    rw [List.tail_cons] at whole
    rwa [whole, nameKind_function calls] at again

theorem contents_quote {t : Token} {cs : List Char} (string : t.kind = .literal .string)
    (quoted : t.lexeme = quote cs) : t.contents = String.ofList cs := by
  simp [Token.contents, string, quoted, quote, undoubleQuotes_doubleQuotes]

theorem Found.quoted {c : Char} {cs tail : List Char} {kind : TokenKind} (found : Found c cs kind tail)
    (string : kind = .literal .string) : ∃ inner, c :: tail = quote inner := by
  cases found with
  | string read =>
    obtain ⟨inner, rfl⟩ := quotedRest?_pairs read
    exact ⟨inner, rfl⟩
  | dated _ read =>
    cases string
    obtain kind | kind := (dated_isPrefix read).2 <;> cases kind
  | @name c cs _ =>
    have member := nameKind_mem (c :: nameRest cs) (cs.drop (nameRest cs).length)
    rw [string] at member
    exact absurd member (by decide)
  | _ => cases string

theorem text_of_string {source : String} {ts : List Token} (lexed : tokenize source = .ok ts) {t : Token}
    (member : t ∈ ts) (string : t.kind = .literal .string) : t.text = quoted t.contents := by
  obtain ends | ⟨c, tail, rest, lexeme, found⟩ := (tokenize_layout lexed).found t member
  · rw [string] at ends
    cases ends
  · obtain ⟨inner, quoted⟩ := found.quoted string
    rw [← lexeme] at quoted
    rw [contents_quote string quoted, Token.text, quoted, Text.quoted, String.toList_ofList]

theorem tokenize_quoted (s : String) :
    tokenize (quoted s) =
      .ok [⟨.literal .string, 0, quote s.toList⟩, ⟨.eof, byteLength (quote s.toList), []⟩] :=
  (Lexes.token (rescans_quote s.toList .nil) 0).tokenize

end Lexing

mutual
theorem Expr.size_read (text? : Span → Option (List Char)) (e : ParsedExpr) :
    (e.read text?).size = e.size := by
  match e with
  | .literal _ _ => rfl
  | .path _ => rfl
  | .not operand => simp only [read, size, operand.size_read]
  | .binary _ left right => simp only [read, size, left.size_read, right.size_read]
  | .call _ args => simp only [read, size, Expr.sizeOfAll_readAll text? args]
  | .named value _ => simp only [read, size, value.size_read]
  | .ordered value _ => simp only [read, size, value.size_read]
  | .broken reason => exact nomatch reason
  | .brokenCall _ reason => exact nomatch reason
theorem Expr.sizeOfAll_readAll (text? : Span → Option (List Char)) (es : List ParsedExpr) :
    Expr.sizeOfAll (Expr.readAll text? es) = Expr.sizeOfAll es := by
  match es with
  | [] => rfl
  | e :: es => simp only [readAll, sizeOfAll, e.size_read, Expr.sizeOfAll_readAll text? es]
end

namespace RoundTrip

open Grammar Lexing Typing

theorem filterModel_of_reparses {value : TreeExpr} {text : List Char} {bound : Nat}
    (reparses : Reparses (Derives .or) bound value text) (shallow : 2 * bound ≤ Parser.nestingLimit)
    (low : value.height ≤ Parser.nestingLimit) (few : value.size ≤ handles) {p : Pool}
    (reachable : p.Reachable) (entity : Entity) :
    (Compiler.filterModel (String.ofList text) entity p).1 = Typing.filter entity value := by
  obtain ⟨ts, e, n, phrase, deep, reads, lexes⟩ := reparses 0
  obtain rfl := reads text (.whole text)
  have lexed := (lexes [] .nil).tokenize
  rw [Expr.height_read] at low
  rw [Expr.size_read] at few
  have within : WithinAll n [e] := ⟨by omega, by simpa [phrase.bare_eq] using low⟩
  have ends : (⟨.eof, byteLength text, []⟩ : Token).kind = .eof := rfl
  have parsed := (clause_follows (.one (.condition phrase)) (fun _ => rfl) ends).reads within
  have items := Pool.items?_covered reachable (String.ofList text) parsed
    (by simpa [Expr.sizeOfAll] using few)
  rw [Compiler.filterModel_seen lexed, items, String.toList_ofList]
  rfl

theorem reparses_property {path : String} (named : path.toList ∈ Spelling.spelling .identifier) :
    Reparses (Derives .primary) 1 (.path (some path.toList)) path.toList := by
  obtain ⟨c, cs, chars, found⟩ :=
    Spelling.found_of_mem_spelling named (by rintro (kind | kind) <;> cases kind)
  rw [chars]
  exact reparses_leaf .path (fun rest parts => found.rescans rfl parts) (fun t kind => .path (.inl kind))
    fun _ _ read => by rw [Expr.read, read]

theorem reparses_quote (cs : List Char) :
    Reparses (Derives .primary) 1 (.literal .string (some (quote cs))) (quote cs) :=
  reparses_leaf (.literal .string) (fun _ parts => rescans_quote cs parts) (fun _ kind => .literal kind)
    fun _ _ read => by rw [Expr.read, read]

end RoundTrip

theorem Path.segments_of_name {cs : List Char} (plain : '/' ∉ cs) : Path.segments cs = (cs, []) := by
  induction cs with
  | nil => rfl
  | cons c cs ih =>
    simp only [List.mem_cons, not_or] at plain
    simp [Path.segments, ih plain.2, Ne.symm plain.1]

theorem Entity.resolve_of_name {entity : Entity} {path : String} {column : Column}
    (named : path.toList ∈ Spelling.spelling .identifier)
    (listed : entity.property? path = some (.primitive column)) :
    entity.resolve path = .ok ⟨none, column⟩ := by
  have plain := Spelling.slash_not_mem_of_name named.1
  rw [Entity.property?] at listed
  simp [Entity.resolve, Path.segments_of_name plain, Members.walk, listed]

namespace Typing

variable {entity : Entity} {path : String} {column : Column}

theorem unquote?_quote (cs : List Char) : unquote? (quote cs) = some (String.ofList cs) := by
  rw [quote, Lexing.unquote?_quoted, undoubleQuotes_doubleQuotes]

theorem operand_quote (s : String) :
    operand entity (.literal .string (some (quote s.toList))) = .ok (.literal (.text s), .string) := by
  rw [operand_literal]
  exact ⟨_, rfl, .text s, by simp [literalValue, unquote?_quote, readable, Except.map], rfl⟩

theorem operand_column (found : entity.resolve path = .ok ⟨none, column⟩) :
    operand entity (.path (some path.toList)) = .ok (.property path, column.type.valueType) := by
  rw [operand_path]
  refine ⟨path.toList, rfl, ⟨none, column⟩, ?_, ?_⟩
  · rw [String.ofList_toList, found]
  · rw [String.ofList_toList]
    rfl

theorem filter_equal_quote (found : entity.resolve path = .ok ⟨none, column⟩)
    (string : column.type.valueType = .string) (s : String) :
    filter entity (.binary (.comparison .eq) (.path (some path.toList))
        (.literal .string (some (quote s.toList)))) =
      .ok (.comparison .equal (.property path) (.literal (.text s))) := by
  have left := operand_column found
  rw [string] at left
  rw [filter, comparison_eq_ok]
  exact .inr (.inr ⟨_, _, _, _, left, operand_quote s, rfl, _, _, rfl, _, _, rfl, rfl, rfl⟩)

theorem filter_match_quote (found : entity.resolve path = .ok ⟨none, column⟩)
    (string : column.type.valueType = .string) (s : String) {function : Function} {kind : StringMatch}
    (test : function.stringMatch? = some kind) :
    filter entity (.call (some function.name.toList) [.path (some path.toList),
        .literal .string (some (quote s.toList))]) =
      .ok (.stringMatch kind.operator (.property path) s) := by
  have target := operand_column found
  rw [string] at target
  have known : Function.ofName? function.name.toList = some function := by
    cases function <;> rfl
  rw [filter_call]
  refine ⟨function, kind, ⟨_, rfl, known, test⟩, stringMatch_eq_ok.2 ?_⟩
  exact ⟨_, _, s, _, rfl, target, by simp [unquote?_quote], rfl⟩

end Typing

theorem Generation.filterSql_equal {entity : Entity} {path : String} {column : Column}
    (found : entity.resolve path = .ok ⟨none, column⟩) (dialect : Dialect) (s : String) :
    filterSql dialect entity (.comparison .equal (.property path) (.literal (.text s))) =
      .ok ⟨column.name ++ " = ?", [.text s]⟩ := by
  rw [filterSql_eq_ok]
  refine ⟨.binary .eq (.column column.name) (.param (.text s)) false, ?_, rfl, ?_⟩
  · simp [filter, comparison, Operand.isNull, comparison?, orElse, operand, found, Located.sql]
  · have sign : SqlOperator.eq.text ++ "?" = " = ?" := by decide
    simp [Sql.print, Printed.text, Printed.args, Printed.append_eq, Printed.ofText, Printed.ofParam,
      Printed.piecesText, Printed.piecesArgs, sign]

namespace Compiler

open RoundTrip

variable {entity : Entity} {path : String} {column : Column} {p : Pool}
  (named : path.toList ∈ Spelling.spelling .identifier)
  (found : entity.resolve path = .ok ⟨none, column⟩) (string : column.type.valueType = .string)
  (s : String) (reachable : p.Reachable)
include named found string reachable

theorem filterModel_equal_quoted :
    (filterModel (path ++ " eq " ++ quoted s) entity p).1 =
      .ok (.comparison .equal (.property path) (.literal (.text s))) := by
  have reparses : Reparses (Grammar.Derives .or) 2 _ _ := fun position => by
    obtain ⟨ts, e, n, phrase, shallow, rest⟩ :=
      reparses_joined (.comparison .eq) (reparses_property named) (reparses_quote s.toList) position
    exact ⟨ts, e, n, phrase, by omega, rest⟩
  have text : path ++ " eq " ++ quoted s = String.ofList (path.toList ++
      ([' '] ++ ((BinaryOperator.comparison .eq).word.toList ++ ([' '] ++ quote s.toList)))) := by
    rw [← String.toList_inj]
    simp [quoted, BinaryOperator.word, Comparison.word]
  rw [text, filterModel_of_reparses reparses (by decide) (by simp [Expr.height, Parser.nestingLimit])
    (by simp [Expr.size, handles]) reachable]
  exact Typing.filter_equal_quote found string s

theorem filterModel_match_quoted {function : Function} {kind : StringMatch}
    (test : function.stringMatch? = some kind) :
    (filterModel (function.name ++ "(" ++ path ++ ", " ++ quoted s ++ ")") entity p).1 =
      .ok (.stringMatch kind.operator (.property path) s) := by
  have args : List.Forall₂ (Reparses (Grammar.Derives .or) 1) _ _ :=
    .cons ((reparses_property named).argument (Nat.le_refl 1))
      (.cons ((reparses_quote s.toList).argument (Nat.le_refl 1)) .nil)
  have reparses := (reparses_call (Lexing.rescans_functionName function) args).argument (Nat.le_refl 2)
  have text : function.name ++ "(" ++ path ++ ", " ++ quoted s ++ ")" =
      String.ofList
        (function.name.toList ++ '(' :: Expr.listText [path.toList, quote s.toList] ++ [')']) := by
    rw [← String.toList_inj]
    simp [quoted, Expr.listText]
  rw [text, filterModel_of_reparses reparses (by decide)
    (by simp [Expr.height, Expr.heightOfAll, Parser.nestingLimit])
    (by simp [Expr.size, Expr.sizeOfAll, handles]) reachable]
  exact Typing.filter_match_quote found string s test

end Compiler

/-- A user's text, whatever it holds, is one string token when it is quoted, and every string token is
the quoted form of its contents. Compared with a property it is the only argument, and the three functions
that take a pattern take it as it is. -/
theorem strings_arrive_unchanged (s : String) :
    (∃ t, Token.tokenize (quoted s) = .ok [t, ⟨.eof, byteLength (quoted s).toList, []⟩] ∧
      t.kind = .literal .string ∧ t.span = ⟨0, byteLength (quoted s).toList⟩ ∧ t.text = quoted s ∧
      t.contents = s) ∧
    (∀ source ts, Token.tokenize source = .ok ts →
      ∀ t ∈ ts, t.kind = .literal .string → t.text = quoted t.contents) ∧
    ∀ (entity : Entity) (path : String) (column : Column),
      path.toList ∈ Spelling.spelling .identifier → entity.property? path = some (.primitive column) →
      column.type = .text ∨ column.type = .guid → ∀ p : Pool, p.Reachable →
      (∀ dialect, (Compiler.filter dialect (path ++ " eq " ++ quoted s) entity p).1 =
        .ok ⟨column.name ++ " = ?", [.text s]⟩) ∧
      ∀ function kind, Function.stringMatch? function = some kind →
        (Compiler.filterModel (function.name ++ "(" ++ path ++ ", " ++ quoted s ++ ")") entity p).1 =
          .ok (.stringMatch kind.operator (.property path) s) := by
  have whole : (quoted s).toList = quote s.toList := String.toList_ofList
  refine ⟨⟨⟨.literal .string, 0, quote s.toList⟩, ?_, rfl, ?_, rfl, ?_⟩,
    fun source ts lexed t member string => Lexing.text_of_string lexed member string, ?_⟩
  · rw [whole, Lexing.tokenize_quoted]
  · rw [whole, Token.span, Token.stop, Token.length, Nat.zero_add]
  · rw [Lexing.contents_quote rfl rfl, String.ofList_toList]
  intro entity path column named listed type p reachable
  have found := Entity.resolve_of_name named listed
  have string : column.type.valueType = .string := by obtain is | is := type <;> rw [is] <;> rfl
  refine ⟨fun dialect => ?_, fun function kind test => ?_⟩
  · have model := Compiler.filterModel_equal_quoted named found string s reachable
    rw [Compiler.filter, Compiler.generate, model, Outcome.ok_bind, Generation.filterSql_equal found]
    rfl
  · exact Compiler.filterModel_match_quoted named found string s reachable test

theorem strings_arrive_unchanged_quotes :
    let entity : Entity :=
      { name := "Person", members := [("Name", .primitive ⟨"name", .guid, true, none⟩)] }
    "Name".toList ∈ Spelling.spelling .identifier ∧ quoted "'\\''" = "'''\\'''''" ∧
      (∃ t, Token.tokenize "'''\\'''''" = .ok [t, ⟨.eof, 9, []⟩] ∧ t.contents = "'\\''") ∧
      (Compiler.filter .sqlite "Name eq '''\\'''''" entity (.ofCapacity 0)).1 =
        .ok ⟨"name = ?", [.text "'\\''"]⟩ ∧
      (Compiler.filterModel "endswith(Name, '''\\''''')" entity (.ofCapacity 0)).1 =
        .ok (.stringMatch .endsWith (.property "Name") "'\\''") := by
  intro entity
  have letters : "Name".toList ∈ Spelling.name := Spelling.mem_name.2 (by decide)
  have named : "Name".toList ∈ Spelling.spelling .identifier :=
    Spelling.mem_spelling_nameKind (Spelling.names_cases.1.1 letters).1
  have text : quoted "'\\''" = "'''\\'''''" := by decide
  obtain ⟨⟨t, lexed, -, -, -, contents⟩, -, compiles⟩ := strings_arrive_unchanged "'\\''"
  obtain ⟨equals, ends⟩ :=
    compiles entity "Name" ⟨"name", .guid, true, none⟩ named rfl (.inr rfl) (.ofCapacity 0)
      (.ofCapacity 0)
  rw [text] at lexed equals ends
  exact ⟨named, text, ⟨t, lexed, contents⟩, equals .sqlite, ends .endsWith .endsWith rfl⟩

end ClauseSql
