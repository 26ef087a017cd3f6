import ClauseSql.Proofs.ByteScanning
import ClauseSql.Proofs.Readability

/-! No clause breaks its own way to SQL. The tokens of a source and the errors of the lexer point at
text that is there, trees hold what their handles ask for as long as the source is shorter than the
number of handles, and so no stage comes upon something that it cannot read. -/
namespace ClauseSql

open Outcome

namespace Text

theorem takeBytes?_eq_some {cs taken : List Char} {n : Nat} (read : takeBytes? cs n = some taken) :
    taken <+: cs ∧ byteLength taken = n := by
  fun_induction takeBytes? cs n generalizing taken with
  | case1 cs =>
    cases read
    exact ⟨List.nil_prefix, rfl⟩
  | case2 => cases read
  | case3 c cs n fits ih =>
    obtain ⟨more, found, rfl⟩ := Option.map_eq_some_iff.1 read
    obtain ⟨begins, length⟩ := ih found
    refine ⟨List.cons_prefix_cons.2 ⟨rfl, begins⟩, ?_⟩
    rw [byteLength_cons, length]
    omega
  | case4 => cases read

end Text

theorem Moment.withSeconds?_eq_some {text filled : List Char} :
    withSeconds? text = some filled ↔
      ∃ head c rest, text = head ++ c :: rest ∧ Text.byteLength head = minutesEnd ∧ c ≠ ':' ∧
        filled = head ++ ':' :: '0' :: '0' :: c :: rest := by
  simp only [withSeconds?, Option.bind_eq_bind, Option.bind_eq_some_iff]
  constructor
  · rintro ⟨head, read, done⟩
    obtain ⟨⟨rest, rfl⟩, length⟩ := Text.takeBytes?_eq_some read
    rw [List.drop_left] at done
    cases rest with
    | nil => cases done
    | cons c rest =>
      dsimp only at done
      split at done
      · cases done
      · next other => exact ⟨head, c, rest, rfl, length, other, (Option.some.inj done).symm⟩
  · rintro ⟨head, c, rest, rfl, length, other, rfl⟩
    refine ⟨head, length ▸ Text.takeBytes?_append head (c :: rest), ?_⟩
    rw [List.drop_left]
    exact if_neg other

namespace Template

def Segment.written : Segment → List Char
  | .text c => [c]
  | .slot digits => '\x7b' :: (digits ++ ['\x7d'])

theorem slot?_eq_some {cs digits : List Char} (read : slot? cs = some digits) :
    cs = digits ++ '\x7d' :: cs.drop (digits.length + 1) := by
  unfold slot? at read
  dsimp only at read
  split at read
  · next c rest _ follows =>
    split at read
    · next closing =>
      cases read
      obtain ⟨after, same⟩ := List.takeWhile_prefix Text.isDecimalDigit (l := cs)
      generalize cs.takeWhile Text.isDecimalDigit = digits at same follows ⊢
      subst same closing
      rw [List.drop_left] at follows
      simp [follows]
    · cases read
  · cases read

theorem flatMap_written_segments (cs : List Char) : (segments cs).flatMap Segment.written = cs := by
  fun_induction segments cs with
  | case1 => rfl
  | case2 c rest digits read ih =>
    split at read
    · next opening =>
      rw [List.flatMap_cons, ih, Segment.written, opening]
      simpa using (slot?_eq_some read).symm
    · cases read
  | case3 c rest read ih => exact congrArg (c :: ·) ih

end Template

namespace Tree

theorem text?_eq_origin (t : Tree) : t.text? = t.origin.text? := rfl

/-- The run of handles lies in the store, and whatever they lead to can be read. -/
def ReadableItems (t : Tree) (list : ArgList) : Prop :=
  ∃ items, t.viewList? list = some items ∧ ∀ item ∈ items, Readable item

theorem ReadableItems.stands {α : Type} {t : Tree} {list : ArgList} (items : t.ReadableItems list)
    {type : List Typing.TreeExpr → Typing.Result α}
    (next : ∀ items, (∀ item ∈ items, Readable item) → Typing.Stands (type items)) :
    Typing.Stands (Typing.readable (t.viewList? list) >>= type) := by
  obtain ⟨items, found, each⟩ := items
  rw [found]
  exact next items each

end Tree

theorem Lexing.worth_lt_handles {source : String} {ts : List Token}
    (lexed : Token.tokenize source = .ok ts) (short : Text.byteLength source.toList < handles) :
    Parser.worth ts < handles :=
  Nat.lt_of_le_of_lt (tokenize_layout lexed).worth_le short

namespace Pool

theorem Reachable.view_store {p : Pool} (reachable : p.Reachable) (source : List Char)
    {e : ParsedExpr} (room : e.size ≤ handles) :
    ((p.acquire source).1.store e).2.view ((p.acquire source).1.store e).1 =
      e.read (Tree.Origin.text? ⟨source, p.generation⟩) := by
  obtain ⟨empty, bare, origin⟩ := reachable.acquire_bare source
  rw [Tree.view_store empty bare room, Tree.text?_eq_origin, (Tree.grows_store _ e).origin, origin]

theorem Reachable.viewList?_storeItems {p : Pool} (reachable : p.Reachable) (source : List Char)
    {es : List ParsedExpr} (room : Expr.sizeOfAll es ≤ handles)
    (many : 2 * es.length ≤ Expr.sizeOfAll es) :
    (storeItems (p.acquire source).1 es).2.viewList? (storeItems (p.acquire source).1 es).1 =
      some (Expr.readAll (Tree.Origin.text? ⟨source, p.generation⟩) es) := by
  obtain ⟨empty, bare, origin⟩ := reachable.acquire_bare source
  have grown : (p.acquire source).1.Grows (storeItems (p.acquire source).1 es).2 :=
    (Tree.grows_storeAll _ es).trans (Tree.grows_pushArgs _ _)
  rw [Tree.viewList?_storeItems empty bare room many, Tree.text?_eq_origin, grown.origin, origin]

section Kept

variable {source : String} {ts : List Token} {p : Pool} {t : Tree} (reachable : p.Reachable)
  (lexed : Token.tokenize source = .ok ts) (short : Text.byteLength source.toList < handles)
include reachable lexed short

theorem parseFilter_readable {root : NodeId}
    (parsed : (p.parseFilter source ts).1 = .ok (t, root)) : Readable (t.view root) := by
  rw [parseFilter_eq] at parsed
  obtain ⟨e, built, stored⟩ := keep_eq_ok.1 parsed
  have room : e.size ≤ handles :=
    calc e.size ≤ Parser.worth ts := Parser.filter_size built
      _ ≤ handles := Nat.le_of_lt (Lexing.worth_lt_handles lexed short)
  have seen := reachable.view_store source.toList room
  have texts := Likeness.filter_agree (tokens_readable lexed p.generation)
  rw [stored] at seen
  rw [built] at texts
  cases texts with
  | ok alike =>
    rw [seen]
    exact Expr.readable_read alike

theorem keepItems_readable {parsed : Except Parser.Stop (List ParsedExpr)} {list : ArgList}
    (texts : Agree (Expr.AlikeAll (readableTexts.spans ⟨source.toList, p.generation⟩
      ⟨source.toList, p.generation⟩)) parsed parsed)
    (sized : ∀ es, parsed = .ok es →
      2 * es.length ≤ Expr.sizeOfAll es ∧ Expr.sizeOfAll es ≤ Parser.worth ts + 1)
    (kept : (p.keep source parsed storeItems).1 = .ok (t, list)) : t.ReadableItems list := by
  obtain ⟨es, rfl, stored⟩ := keep_eq_ok.1 kept
  obtain ⟨many, size⟩ := sized es rfl
  have room : Expr.sizeOfAll es ≤ handles := size.trans (Lexing.worth_lt_handles lexed short)
  have seen := reachable.viewList?_storeItems source.toList room many
  rw [stored] at seen
  cases texts with
  | ok alike => exact ⟨_, seen, Expr.readable_readAll alike⟩

theorem parseCompute_readable {list : ArgList}
    (parsed : (p.parseCompute source ts).1 = .ok (t, list)) : t.ReadableItems list := by
  rw [parseCompute_eq] at parsed
  exact keepItems_readable reachable lexed short (Likeness.compute_agree (tokens_readable lexed _))
    (fun _ => Parser.compute_size) parsed

theorem parseOrderBy_readable {list : ArgList}
    (parsed : (p.parseOrderBy source ts).1 = .ok (t, list)) : t.ReadableItems list := by
  rw [parseOrderBy_eq] at parsed
  exact keepItems_readable reachable lexed short (Likeness.orderBy_agree (tokens_readable lexed _))
    (fun _ => Parser.orderBy_size) parsed

end Kept

end Pool

namespace Compiler

open Typing

theorem model_stands {ρ α : Type} {parse : Pool → String → List Token → ParseResult ρ × Pool}
    {type : Pool → Entity → Tree → ρ → Except Failure α × Pool} {source : String} {entity : Entity}
    {p : Pool}
    (typed : ∀ ts t root, Token.tokenize source = .ok ts → (parse p source ts).1 = .ok (t, root) →
      ∀ q, Stands (type q entity t root).1) : Stands (model parse type source entity p).1 := by
  unfold model
  split
  · intro broken
    cases broken
  · next ts lexed =>
    split
    · intro broken
      cases broken
    · next t root q parsed => exact typed ts t root lexed (by rw [parsed]) q

theorem generate_stands {α β : Type} {generation : α → Except Error β}
    {result : Except Failure α × Pool} (made : Stands result.1) :
    Stands (generate generation result).1 := by
  refine made.bind fun model => ?_
  cases generation model <;> nofun

end Compiler

/-- What the texts and trees of a source are asked for is there: the texts that are cut out while the
source is read byte by byte, what tokens and errors of the lexer point at, and what the roots of trees
lead to. -/
structure Sound (source : String) (p : Pool) : Prop where
  reads : (Cursor.ofSource source).Reads (Token.tokenize source)
  errors : ∀ error, Token.tokenize source = .error error → Lexing.Points source.toList error
  tokens : ∀ ts, Token.tokenize source = .ok ts →
    ∀ t ∈ ts, Text.slice? source.toList t.start t.stop = some t.lexeme
  filters : ∀ ts t root, Token.tokenize source = .ok ts →
    (p.parseFilter source ts).1 = .ok (t, root) → Readable (t.view root)
  computes : ∀ ts t list, Token.tokenize source = .ok ts →
    (p.parseCompute source ts).1 = .ok (t, list) → t.ReadableItems list
  orders : ∀ ts t list, Token.tokenize source = .ok ts →
    (p.parseOrderBy source ts).1 = .ok (t, list) → t.ReadableItems list

theorem sound {source : String} (short : Text.byteLength source.toList < handles) {p : Pool}
    (reachable : p.Reachable) : Sound source p where
  reads := Cursor.reads_tokenize source
  errors _ failed := Lexing.tokenize_points failed
  tokens _ lexed := Lexing.tokenize_slice lexed
  filters _ _ _ lexed parsed := Pool.parseFilter_readable reachable lexed short parsed
  computes _ _ _ lexed parsed := Pool.parseCompute_readable reachable lexed short parsed
  orders _ _ _ lexed parsed := Pool.parseOrderBy_readable reachable lexed short parsed

section Outcomes

open Compiler

variable {source : String} {p : Pool} (holds : Sound source p) (dialect : Dialect) (entity : Entity)
include holds

theorem Sound.filter_stands : Typing.Stands (filter dialect source entity p).1 := by
  refine generate_stands (model_stands fun ts t root lexed parsed q => ?_)
  exact Typing.filter_stands (holds.filters ts t root lexed parsed)

theorem Sound.compute_stands : Typing.Stands (compute dialect source entity p).1 := by
  refine generate_stands (model_stands fun ts t list lexed parsed q => ?_)
  exact (holds.computes ts t list lexed parsed).stands fun _ => Typing.compute_stands

theorem Sound.orderBy_stands : Typing.Stands (orderBy dialect source entity p).1 := by
  refine generate_stands (model_stands fun ts t list lexed parsed q => ?_)
  exact (holds.orders ts t list lexed parsed).stands fun _ => Typing.orderBy_stands

end Outcomes

/-- Whatever the source, the entity and the dialect, no clause comes upon something that it cannot
read, and texts are cut only where a character ends. -/
theorem clauses_never_break {source : String} (short : Text.byteLength source.toList < 2 ^ 32)
    {p : Pool} (reachable : p.Reachable) :
    (∀ dialect entity,
      (Compiler.filter dialect source entity p).1 ≠ .error .broken ∧
      (Compiler.compute dialect source entity p).1 ≠ .error .broken ∧
      (Compiler.orderBy dialect source entity p).1 ≠ .error .broken) ∧
    Sound source p ∧
    (∀ text filled, Moment.withSeconds? text = some filled ↔
      ∃ head c rest, text = head ++ c :: rest ∧ Text.byteLength head = 16 ∧ c ≠ ':' ∧
        filled = head ++ ':' :: '0' :: '0' :: c :: rest) ∧
    ∀ text, (Template.segments text).flatMap Template.Segment.written = text := by
  have holds := sound short reachable
  refine ⟨fun dialect entity => ⟨?_, ?_, ?_⟩, holds, ?_, Template.flatMap_written_segments⟩
  · exact holds.filter_stands dialect entity
  · exact holds.compute_stands dialect entity
  · exact holds.orderBy_stands dialect entity
  · exact fun text filled => Moment.withSeconds?_eq_some

theorem clauses_never_break_umlaut :
    Text.byteLength "endswith(Name,'ü''€')".toList < 2 ^ 32 ∧ Pool.default.Reachable ∧
    ∃ ts t root, Token.tokenize "endswith(Name,'ü''€')" = .ok ts ∧
      (Pool.default.parseFilter "endswith(Name,'ü''€')" ts).1 = .ok (t, root) ∧
      t.view root = .call (some "endswith".toList)
        [.path (some "Name".toList), .literal .string (some "'ü''€'".toList)] ∧
      Readable (t.view root) ∧
      (Cursor.ofSource "endswith(Name,'ü''€')").Reads (.ok ts) ∧
      ∀ dialect entity,
        (Compiler.filter dialect "endswith(Name,'ü''€')" entity .default).1 ≠ .error .broken := by
  have lexed : Token.tokenize "endswith(Name,'ü''€')" = .ok
      [⟨.functionName, 0, "endswith".toList⟩, ⟨.openParen, 8, ['(']⟩,
        ⟨.identifier, 9, "Name".toList⟩, ⟨.comma, 13, [',']⟩,
        ⟨.literal .string, 14, "'ü''€'".toList⟩, ⟨.closeParen, 23, [')']⟩, ⟨.eof, 24, []⟩] := by
    decide +kernel
  let tree : Tree := ⟨"endswith(Name,'ü''€')".toList, 1,
    ⟨#[.path ⟨9, 13⟩, .literal .string ⟨14, 23⟩, .call ⟨0, 8⟩ ⟨0, 2⟩], #[⟨0, 1⟩, ⟨1, 1⟩], 32⟩⟩
  have parsed : (Pool.default.parseFilter "endswith(Name,'ü''€')"
      [⟨.functionName, 0, "endswith".toList⟩, ⟨.openParen, 8, ['(']⟩,
        ⟨.identifier, 9, "Name".toList⟩, ⟨.comma, 13, [',']⟩,
        ⟨.literal .string, 14, "'ü''€'".toList⟩, ⟨.closeParen, 23, [')']⟩, ⟨.eof, 24, []⟩]).1 =
      .ok (tree, ⟨2, 1⟩) := by decide +kernel
  have short : Text.byteLength "endswith(Name,'ü''€')".toList < 2 ^ 32 := by decide
  have reachable : Pool.default.Reachable := .ofCapacity Pool.defaultCapacity
  have whole := clauses_never_break short reachable
  exact ⟨short, reachable, _, tree, ⟨2, 1⟩, lexed, parsed, by rfl,
    whole.2.1.filters _ _ _ lexed parsed, lexed ▸ whole.2.1.reads,
    fun dialect entity => (whole.1 dialect entity).1⟩

end ClauseSql
