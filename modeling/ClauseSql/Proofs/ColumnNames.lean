import ClauseSql.Proofs.ArgumentOrder
import ClauseSql.Proofs.ClauseTyping
import ClauseSql.Proofs.SourceItems
import ClauseSql.Proofs.Spelling

/-! Computed columns and their names. A name is the only text of a source that is copied into the SQL, and
it is put between quotes as it is. It comes from an identifier, so it holds no quote of any dialect. -/
namespace ClauseSql

open Outcome Typing Text

namespace Spelling

theorem identifier_of_tokenize {source : String} {ts : List Token}
    (lexed : Token.tokenize source = .ok ts) {t : Token} (member : t ∈ ts) (kind : t.kind = .identifier) :
    t.lexeme ∈ spelling .identifier := by
  obtain ⟨c, tail, lexeme, -, scanned⟩ :=
    (RoundTrip.tokenize_sourced lexed t member).alone (by rw [kind]; rfl) [] .nil
  have found := Lexing.scan_found (scanned 0)
  rw [kind, List.append_nil] at found
  rw [lexeme]
  exact mem_spelling_of_found found rfl (by rintro (date | date) <;> cases date)

theorem quote_not_mem_of_name {w : List Char} (member : w ∈ name) (d : Dialect) :
    ∀ c ∈ d.quotes.1.toList ++ d.quotes.2.toList, c ∉ w := by
  have quotes : ∀ c ∈ d.quotes.1.toList ++ d.quotes.2.toList, isNameChar c = false := by
    cases d <;> simp [Dialect.quotes] <;> decide
  intro c quote inside
  have letter := List.all_eq_true.1 (mem_name.1 member).2 c inside
  rw [quotes c quote] at letter
  cases letter

end Spelling

theorem Entity.not_mem_names {entity : Entity} {name : String} (fresh : entity.property? name = none) :
    name ∉ entity.members.names := by
  intro listed
  obtain ⟨member, found, rfl⟩ := List.mem_map.1 listed
  have other := List.lookup_eq_none_iff.1 fresh member found
  simp at other

theorem Token.flatten_cut_sublist (depth : Nat) (ts : List Token) : (cut depth ts).flatten.Sublist ts := by
  induction ts generalizing depth with
  | nil => exact List.Sublist.refl _
  | cons t ts ih =>
    rw [cut]
    split
    · exact (ih depth).cons t
    · have inside := ih (t.kind.nesting depth)
      cases pieces : cut (t.kind.nesting depth) ts with
      | nil => exact List.nil_sublist _
      | cons first rest =>
        rw [pieces] at inside
        exact inside.cons_cons t

theorem Token.mem_of_mem_items {ts body : List Token} (listed : body ∈ items ts) {t : Token}
    (member : t ∈ body) : t ∈ ts :=
  List.mem_of_mem_dropLast
    ((flatten_cut_sublist 0 ts.dropLast).subset (List.mem_flatten.2 ⟨body, listed, member⟩))

theorem Grammar.SpellsItem.name_token {ts : List Token} {e value : ParsedExpr} {span : Span}
    (spelled : SpellsItem .compute ts e) (inside : (Expr.named value span).Part e) :
    ∃ t ∈ ts, t.kind = .identifier ∧ t.span = span := by
  cases spelled with
  | @named ts joined name e phrase joins names =>
    cases inside with
    | whole => exact ⟨name, by simp, names, rfl⟩
    | named inside =>
      -- No value inside an expression has a name.
      obtain ⟨us, -, spelled⟩ := phrase.part inside
      cases spelled.bare_eq

theorem Compiler.computeModel_names {source : String} {entity : Entity} {p : Pool}
    (reachable : p.Reachable) {made : List ComputeItem}
    (done : (computeModel source entity p).1 = .ok made) :
    ∀ item ∈ made, item.name.toList ∈ Spelling.spelling .identifier := by
  obtain ⟨ts, read, lexed, seen, typed⟩ := computeModel_items done
  obtain ⟨es, parsed, fragments⟩ := Pool.items?_fragments reachable source seen
  obtain ⟨made, rfl, models⟩ := compute_models typed
  intro item member
  obtain ⟨_, found, value, name, rfl, named, -⟩ := exists_of_forall₂ models item member
  obtain broken | ⟨e, listed, part, inside, same⟩ := fragments _ found
  · cases broken
  cases part with
  | named inner span =>
    obtain ⟨body, cut, spelled⟩ := exists_of_forall₂ (Grammar.clause_items lexed parsed) e listed
    obtain ⟨t, within, kind, rfl⟩ := spelled.name_token inside
    have member := Token.mem_of_mem_items cut within
    rw [Expr.read, Expr.named.injEq, (RoundTrip.tokenize_sourced lexed t member).text,
      Option.some.injEq] at same
    rw [named, String.toList_ofList, same.2]
    exact Spelling.identifier_of_tokenize lexed member kind
  | broken reason | brokenCall _ reason => exact reason.elim
  | _ => cases same

/-- The column is the item's value, rendered alone, and the item's name in quotes. -/
def ComputedColumn.Renders (d : Dialect) (entity : Entity) (item : ComputeItem) (column : ComputedColumn) :
    Prop :=
  column.name = item.name ∧ ∃ value w, Generation.operand d entity item.operand = .ok value ∧
    ({} : Writer).render value = (.ok (), w) ∧
    column.sql = w.sql ++ " AS " ++ d.quotes.1 ++ item.name ++ d.quotes.2

def ComputedColumn.Shows (d : Dialect) (source : String) (entity : Entity) (e : ParsedExpr)
    (column : ComputedColumn) : Prop :=
  ∃ item, ComputeItem.Models entity (e.read (covered source.toList)) item ∧ column.Renders d entity item

theorem Printed.text_append_ofText {a : Printed} (complete : a.complete = true) (s : String) :
    (a ++ ofText s).text = a.text ++ s := by
  rw [append_eq, if_pos complete]
  simp [text, piecesText, ofText]

theorem Generation.computeSql_columns {d : Dialect} {entity : Entity} {items : List ComputeItem}
    {out : ComputeSql} (made : computeSql d entity items = .ok out) :
    List.Forall₂ (ComputedColumn.Renders d entity) items out.columns := by
  obtain ⟨⟨texts, args⟩, written, equal⟩ := bind_eq_ok.1 made
  cases equal
  obtain ⟨printed, related, rfl, -⟩ := columns_items written
  clear written made
  induction related with
  | nil => exact .nil
  | @cons item e items made first _ ih =>
    obtain ⟨computed, complete⟩ := first
    obtain ⟨value, generated, equal⟩ := bind_eq_ok.1 computed
    cases equal
    rw [Sql.print, Printed.complete_append, Bool.and_eq_true] at complete
    refine .cons ⟨rfl, value, _, generated, Writer.render_eq_ok.2 ⟨complete.1, rfl⟩, ?_⟩ ih
    show (Sql.named value _ _ _).print.text = _
    rw [Sql.print, Printed.text_append_ofText complete.1]
    simp only [String.append_assoc]

theorem ComputedColumn.shows_of_models {d : Dialect} {source : String} {entity : Entity}
    {es : List ParsedExpr} {items : List ComputeItem} {columns : List ComputedColumn}
    (models : List.Forall₂
      (fun e item => ComputeItem.Models entity (e.read (covered source.toList)) item) es items)
    (rendered : List.Forall₂ (Renders d entity) items columns) :
    List.Forall₂ (Shows d source entity) es columns := by
  induction models generalizing columns with
  | nil =>
    cases rendered
    exact .nil
  | cons first _ ih =>
    cases rendered with
    | cons next others => exact .cons ⟨_, first, next⟩ (ih others)

/-- Every item of a compute clause has a column of its own, which shows its value under its name. The names
are identifiers without any quote in them. No two of them are the same, and the entity has no property of
such a name. -/
theorem computed_columns_are_well_named {d : Dialect} {source : String} {entity : Entity} {p : Pool}
    (reachable : p.Reachable) {out : ComputeSql} (done : (Compiler.compute d source entity p).1 = .ok out) :
    (out.columns.map ComputedColumn.name).Nodup ∧
    (∀ column ∈ out.columns, column.name ∉ entity.members.names ∧
      column.name.toList ∈ Spelling.spelling .identifier ∧
      ∀ other : Dialect, ∀ c ∈ other.quotes.1.toList ++ other.quotes.2.toList, c ∉ column.name.toList) ∧
    ∃ ts es, Token.tokenize source = .ok ts ∧ Parser.compute ts = .ok es ∧
      List.Forall₂ (Grammar.SpellsItem .compute) (Token.items ts) es ∧
      (ts.length ≤ 2 ^ 32 → List.Forall₂ (ComputedColumn.Shows d source entity) es out.columns) := by
  obtain ⟨items, modelled, generated⟩ := Compiler.generate_eq_ok.1 done
  obtain ⟨_, _, -, -, typed⟩ := Compiler.computeModel_items modelled
  obtain ⟨-, sound⟩ := compute_sound .nil typed
  have columns := Generation.computeSql_columns generated
  refine ⟨Generation.computeSql_names generated ▸ sound.distinct, fun column member => ?_, ?_⟩
  · obtain ⟨item, listed, same, -⟩ := exists_of_forall₂ columns column member
    have named := Compiler.computeModel_names reachable modelled item listed
    rw [same]
    exact ⟨Entity.not_mem_names (sound.fresh item listed), named, Spelling.quote_not_mem_of_name named.1⟩
  · obtain ⟨ts, es, lexed, parsed, spelled, models⟩ := Compiler.computeModel_parsed reachable modelled
    refine ⟨ts, es, lexed, parsed, spelled, fun few => ?_⟩
    exact ComputedColumn.shows_of_models (models few) columns

theorem computed_columns_are_well_named_ascending :
    let entity : Entity :=
      { name := "Product"
        members := [("Name", .primitive ⟨"name", .text, true, none⟩),
          ("Price", .primitive ⟨"price", .integer, true, none⟩)] }
    let source := "length(Name) as Size,(Price mul 2) as asc"
    ∃ out, (Compiler.compute .sqlServer source entity .default).1 = .ok out ∧
      out.columns = [⟨"LEN(name) AS [Size]", "Size"⟩, ⟨"(price * ?) AS [asc]", "asc"⟩] ∧
      (out.columns.map ComputedColumn.name).Nodup ∧
      (∀ column ∈ out.columns, column.name ∉ entity.members.names ∧ ']' ∉ column.name.toList) ∧
      ∃ es, List.Forall₂ (ComputedColumn.Shows .sqlServer source entity) es out.columns := by
  intro entity source
  let ts : List Token :=
    [⟨.functionName, 0, "length".toList⟩, ⟨.openParen, 6, ['(']⟩, ⟨.identifier, 7, "Name".toList⟩,
      ⟨.closeParen, 11, [')']⟩, ⟨.asWord, 13, "as".toList⟩, ⟨.identifier, 16, "Size".toList⟩,
      ⟨.comma, 20, [',']⟩, ⟨.openParen, 21, ['(']⟩, ⟨.identifier, 22, "Price".toList⟩,
      ⟨.operator (.arithmetic .mul), 28, "mul".toList⟩, ⟨.literal .number, 32, ['2']⟩,
      ⟨.closeParen, 33, [')']⟩, ⟨.asWord, 35, "as".toList⟩, ⟨.identifier, 38, "asc".toList⟩, ⟨.eof, 41, []⟩]
  have lexed : Token.tokenize source = .ok ts := by decide +kernel
  have done : (Compiler.compute .sqlServer source entity .default).1 =
      .ok ⟨[⟨"LEN(name) AS [Size]", "Size"⟩, ⟨"(price * ?) AS [asc]", "asc"⟩], [.integer 2]⟩ := by
    decide +kernel
  obtain ⟨distinct, named, us, es, same, -, -, shown⟩ := computed_columns_are_well_named (.ofCapacity _) done
  cases lexed.symm.trans same
  refine ⟨_, done, rfl, distinct, fun column member => ?_, es, shown (by decide)⟩
  obtain ⟨fresh, -, quotes⟩ := named column member
  exact ⟨fresh, quotes .sqlServer ']' (by decide)⟩

/-- As many items as there are handles have no columns. -/
theorem full_compute_has_no_columns :
    let entity : Entity := { name := "Item", members := [] }
    let source := repeated "1 as A" (2 ^ 32 - 1)
    ∃ ts, Token.tokenize source = .ok ts ∧ (Token.items ts).length = 2 ^ 32 ∧
      ∃ out, (Compiler.compute .sqlite source entity .default).1 = .ok out ∧ out.columns = [] := by
  intro entity source
  have single : Itemized .compute "1 as A" [.named (.literal .number (some ['1'])) (some ['A'])] :=
    ⟨[⟨.literal .number, 0, ['1']⟩, ⟨.asWord, 2, "as".toList⟩, ⟨.identifier, 5, ['A']⟩, ⟨.eof, 6, []⟩],
      [.named (.literal .number ⟨0, 1⟩) ⟨5, 6⟩], by decide +kernel, by with_unfolding_all rfl, rfl⟩
  have many := single.repeated (by decide) (2 ^ 32 - 1)
  have model := many.computeModel_of_full (by rw [List.length_replicate]; rfl) entity .default
  obtain ⟨ts, es, lexed, parsed, spelled, -⟩ := Compiler.computeModel_parsed (.ofCapacity _) model
  refine ⟨ts, lexed, ?_, ⟨[], []⟩, by rw [Compiler.compute, Compiler.generate, model]; rfl, rfl⟩
  obtain ⟨us, fs, again, reparsed, read⟩ := many
  cases lexed.symm.trans again
  cases parsed.symm.trans reparsed
  have length := congrArg List.length read
  rw [Expr.readAll_eq_map, List.length_map, List.length_replicate, ← spelled.length_eq] at length
  exact length

end ClauseSql
