import ClauseSql.Proofs.ClauseGrammar
import ClauseSql.Proofs.Isolation
import ClauseSql.Proofs.Relexing
import ClauseSql.Proofs.Safety

/-! Printing a parsed clause and parsing the text again. The printed text has parentheses around every
operator, so it is a phrase of the strongest rank wherever it stands, and its tokens are those of the
source that carry texts, in the same order. Each operator of the expression takes at most two levels of
nesting in the printed text, so that only an expression of more than half the allowed height can become
too deep. -/
namespace ClauseSql

open Text

def covered (source : List Char) (span : Span) : Option (List Char) :=
  slice? source span.start span.stop

mutual
theorem Expr.height_read (text? : Span → Option (List Char)) (e : ParsedExpr) :
    (e.read text?).height = e.height := by
  match e with
  | .literal _ _ => rfl
  | .path _ => rfl
  | .not operand => simp only [read, height, operand.height_read]
  | .binary _ left right => simp only [read, height, left.height_read, right.height_read]
  | .call _ args => simp only [read, height, Expr.heightOfAll_readAll text? args]
  | .named value _ => simp only [read, height, value.height_read]
  | .ordered value _ => simp only [read, height, value.height_read]
  | .broken reason => exact nomatch reason
  | .brokenCall _ reason => exact nomatch reason
theorem Expr.heightOfAll_readAll (text? : Span → Option (List Char)) (es : List ParsedExpr) :
    Expr.heightOfAll (Expr.readAll text? es) = Expr.heightOfAll es := by
  match es with
  | [] => rfl
  | e :: es => simp only [readAll, heightOfAll, e.height_read, Expr.heightOfAll_readAll text? es]
end

mutual
theorem Expr.alike_of_read {o p : Tree.Origin} {e f : ParsedExpr}
    (same : e.read o.text? = f.read p.text?) : Expr.Alike (sameTexts.spans o p) e f := by
  match e with
  | .literal _ _ => cases f with
    | literal _ _ =>
      obtain ⟨rfl, text⟩ := Expr.literal.inj same
      exact .literal text
    | broken reason | brokenCall _ reason => exact nomatch reason
    | _ => cases same
  | .path _ => cases f with
    | path _ => exact .path (Expr.path.inj same)
    | broken reason | brokenCall _ reason => exact nomatch reason
    | _ => cases same
  | .not _ => cases f with
    | not _ => exact .not (Expr.alike_of_read (Expr.not.inj same))
    | broken reason | brokenCall _ reason => exact nomatch reason
    | _ => cases same
  | .binary _ _ _ => cases f with
    | binary _ _ _ =>
      obtain ⟨rfl, left, right⟩ := Expr.binary.inj same
      exact .binary (Expr.alike_of_read left) (Expr.alike_of_read right)
    | broken reason | brokenCall _ reason => exact nomatch reason
    | _ => cases same
  | .call _ _ => cases f with
    | call _ _ =>
      obtain ⟨name, args⟩ := Expr.call.inj same
      exact .call name (Expr.alikeAll_of_readAll args)
    | broken reason | brokenCall _ reason => exact nomatch reason
    | _ => cases same
  | .named _ _ => cases f with
    | named _ _ =>
      obtain ⟨value, name⟩ := Expr.named.inj same
      exact .named (Expr.alike_of_read value) name
    | broken reason | brokenCall _ reason => exact nomatch reason
    | _ => cases same
  | .ordered _ _ => cases f with
    | ordered _ _ =>
      obtain ⟨value, rfl⟩ := Expr.ordered.inj same
      exact .ordered (Expr.alike_of_read value)
    | broken reason | brokenCall _ reason => exact nomatch reason
    | _ => cases same
  | .broken reason => exact nomatch reason
  | .brokenCall _ reason => exact nomatch reason
theorem Expr.alikeAll_of_readAll {o p : Tree.Origin} {es fs : List ParsedExpr}
    (same : Expr.readAll o.text? es = Expr.readAll p.text? fs) :
    Expr.AlikeAll (sameTexts.spans o p) es fs := by
  match es with
  | [] => cases fs with
    | nil => exact .nil
    | cons _ _ => cases same
  | _ :: _ => cases fs with
    | nil => cases same
    | cons _ _ =>
      obtain ⟨first, others⟩ := List.cons.inj same
      exact .cons (Expr.alike_of_read first) (Expr.alikeAll_of_readAll others)
end

theorem Expr.readAll_eq_map (text? : Span → Option (List Char)) (es : List ParsedExpr) :
    Expr.readAll text? es = es.map (Expr.read text?) := by
  induction es with
  | nil => rfl
  | cons e es ih => rw [readAll, ih, List.map_cons]

theorem Expr.bare_read (text? : Span → Option (List Char)) (e : ParsedExpr) :
    (e.read text?).bare = e.bare.read text? := by
  cases e with
  | broken reason => exact nomatch reason
  | brokenCall _ reason => exact nomatch reason
  | _ => rfl

theorem Expr.heightOfAll_le_iff {σ β : Type} {es : List (Expr σ β)} {n : Nat} :
    Expr.heightOfAll es ≤ n ↔ ∀ e ∈ es, e.height ≤ n := by
  induction es with
  | nil => simp [heightOfAll]
  | cons e es ih => rw [heightOfAll, Nat.max_le, ih, List.forall_mem_cons]

def Expr.itemsText? (items : List Typing.TreeExpr) : Option (List Char) :=
  (Expr.printAll? items).map Expr.listText

namespace RoundTrip

open Token Lexing Grammar Typing

def Placed (source : List Char) (position : Nat) (text : List Char) : Prop :=
  ∃ before after, source = before ++ (text ++ after) ∧ byteLength before = position

namespace Placed

variable {source first second : List Char} {position : Nat}

theorem whole (text : List Char) : Placed text 0 text := ⟨[], [], by simp, rfl⟩

theorem left (placed : Placed source position (first ++ second)) : Placed source position first := by
  obtain ⟨before, after, rfl, length⟩ := placed
  exact ⟨before, second ++ after, by simp, length⟩

theorem right (placed : Placed source position (first ++ second)) :
    Placed source (position + byteLength first) second := by
  obtain ⟨before, after, rfl, rfl⟩ := placed
  exact ⟨before ++ first, after, by simp, byteLength_append before first⟩

theorem covered (placed : Placed source position first) :
    covered source ⟨position, position + byteLength first⟩ = some first := by
  obtain ⟨before, after, rfl, rfl⟩ := placed
  exact slice?_append before first after

end Placed

/-- Wherever the text is written, its tokens are a phrase for the value. The phrase is not much deeper
than the bound. -/
def Reparses (phrase : List Token → ParsedExpr → Nat → Prop) (bound : Nat) (value : TreeExpr)
    (text : List Char) : Prop :=
  ∀ position, ∃ ts e n, phrase ts e n ∧ n + 1 ≤ 2 * bound ∧
    (∀ source, Placed source position text → e.read (covered source) = value) ∧
    ∀ rest, Parts rest → Lexes position text ts rest

theorem Reparses.imp {phrase other : List Token → ParsedExpr → Nat → Prop} {bound more : Nat}
    {value : TreeExpr} {text : List Char} (weaken : ∀ ts e n, phrase ts e n → other ts e n)
    (le : bound ≤ more) (reparses : Reparses phrase bound value text) :
    Reparses other more value text := by
  intro position
  obtain ⟨ts, e, n, derives, shallow, reads, lexes⟩ := reparses position
  exact ⟨ts, e, n, weaken ts e n derives, by omega, reads, lexes⟩

theorem Reparses.mono {phrase : List Token → ParsedExpr → Nat → Prop} {bound more : Nat}
    {value : TreeExpr} {text : List Char} (reparses : Reparses phrase bound value text)
    (le : bound ≤ more) : Reparses phrase more value text :=
  reparses.imp (fun _ _ _ phrase => phrase) le

theorem rescans_mark {kind : TokenKind} {c : Char} {rest : List Char} (visible : isBlank c = false)
    (scanned : ∀ start, scan start c rest = .ok (kind, [])) : Rescans kind [c] rest :=
  ⟨c, [], rfl, visible, scanned⟩

theorem lexes_open (position : Nat) (rest : List Char) :
    Lexes position ['('] [⟨.openParen, position, ['(']⟩] rest :=
  .token (rescans_mark rfl fun _ => rfl) position

theorem lexes_close (position : Nat) (rest : List Char) :
    Lexes position [')'] [⟨.closeParen, position, [')']⟩] rest :=
  .token (rescans_mark rfl fun _ => rfl) position

theorem lexes_comma (position : Nat) (rest : List Char) :
    Lexes position [','] [⟨.comma, position, [',']⟩] rest :=
  .token (rescans_mark rfl fun _ => rfl) position

theorem reparses_leaf {kind : TokenKind} {lexeme : List Char} {value : TreeExpr}
    (make : Span → ParsedExpr) (again : ∀ rest, Parts rest → Rescans kind lexeme rest)
    (derives : ∀ t : Token, t.kind = kind → Derives .primary [t] (make t.span) 1)
    (reads : ∀ text? span, text? span = some lexeme → (make span).read text? = value) :
    Reparses (Derives .primary) 1 value lexeme := by
  intro position
  exact ⟨[⟨kind, position, lexeme⟩], make ⟨position, position + byteLength lexeme⟩, 1,
    derives ⟨kind, position, lexeme⟩ rfl, Nat.le_refl _,
    fun source placed => reads _ _ placed.covered, fun rest parts => .token (again rest parts) position⟩

theorem weakest_le (rank : Rank) : Rank.or.power ≤ rank.power := by
  cases rank <;> decide

theorem le_strongest (rank : Rank) : rank.power ≤ Rank.primary.power := by
  cases rank <;> decide

theorem Reparses.not {value : TreeExpr} {text : List Char} {bound : Nat}
    (inner : Reparses (Derives .primary) bound value text) :
    Reparses (Derives .primary) (bound + 1) (.not value) ("(not ".toList ++ text ++ [')']) := by
  have split : "(not ".toList ++ text ++ [')'] =
      ['('] ++ ("not".toList ++ ([' '] ++ (text ++ [')']))) := by simp
  rw [split]
  intro position
  let q := position + byteLength ['(']
  let r := q + byteLength "not".toList + byteLength [' ']
  obtain ⟨ts, e, n, phrase, shallow, reads, lexes⟩ := inner r
  have negated : Derives .or (⟨.not, q, "not".toList⟩ :: ts) (.not e) (n + 1) :=
    .relax (weakest_le _) (.not rfl (phrase.relax (le_strongest _)))
  let opening : Token := ⟨.openParen, position, ['(']⟩
  let closing : Token := ⟨.closeParen, r + byteLength text, [')']⟩
  -- One level for the parentheses and one for the operand; the source may have had the latter only.
  refine ⟨opening :: ((⟨.not, q, "not".toList⟩ :: ts) ++ [closing]), .not e, n + 2,
    .group rfl rfl negated, by omega, fun source placed => ?_, fun rest parts => ?_⟩
  · exact congrArg Expr.not (reads source placed.right.right.right.left)
  · exact .append (lexes_open _ _) (.append (.token (rescans_not (.cons (.inl rfl))) _)
      (.append (.blank _ _) (.append (lexes _ (.cons (.inr (.inl rfl)))) (lexes_close _ _))))

theorem reparses_joined {value other : TreeExpr} {left right : List Char} {bound more : Nat}
    (op : BinaryOperator) (first : Reparses (Derives .primary) bound value left)
    (second : Reparses (Derives .primary) more other right) (position : Nat) :
    ∃ ts e n, Derives .or ts e n ∧ n ≤ 2 * max bound more ∧
      (∀ source, Placed source position (left ++ ([' '] ++ (op.word.toList ++ ([' '] ++ right)))) →
        e.read (covered source) = .binary op value other) ∧
      ∀ rest, Parts rest →
        Lexes position (left ++ ([' '] ++ (op.word.toList ++ ([' '] ++ right)))) ts rest := by
  obtain ⟨ts, e, n, phrase, shallow, reads, lexes⟩ := first position
  let q := position + byteLength left + byteLength [' ']
  let r := q + byteLength op.word.toList + byteLength [' ']
  obtain ⟨us, f, m, beside, narrow, knows, relexes⟩ := second r
  let t : Token := ⟨.operator op, q, op.word.toList⟩
  have joined : Derives .or (ts ++ t :: us) (.binary op e f) (max n (m + 1)) :=
    .relax (weakest_le _) (.binary rfl (phrase.relax (le_strongest _)) (beside.relax (le_strongest _)))
  refine ⟨ts ++ t :: us, .binary op e f, max n (m + 1), joined, by omega, fun source placed => ?_,
    fun rest parts => ?_⟩
  · rw [Expr.read, reads source placed.left, knows source placed.right.right.right.right]
  · have tokens : ts ++ t :: us = ts ++ ([] ++ ([t] ++ ([] ++ us))) := by simp
    rw [tokens]
    exact .append (lexes _ (.cons (.inl rfl))) (.append (.blank _ _)
      (.append (.token (rescans_operator op (.cons (.inl rfl))) _)
        (.append (.blank _ _) (relexes rest parts))))

theorem Reparses.binary {value other : TreeExpr} {left right : List Char} {bound more : Nat}
    (op : BinaryOperator) (first : Reparses (Derives .primary) bound value left)
    (second : Reparses (Derives .primary) more other right) :
    Reparses (Derives .primary) (max bound more + 1) (.binary op value other)
      (Expr.infixText op left right) := by
  let inner := left ++ ([' '] ++ (op.word.toList ++ ([' '] ++ right)))
  have split : Expr.infixText op left right = ['('] ++ (inner ++ [')']) := by
    simp [Expr.infixText, inner]
  rw [split]
  intro position
  let q := position + byteLength ['(']
  obtain ⟨ts, e, n, joined, shallow, reads, lexes⟩ := reparses_joined op first second q
  let opening : Token := ⟨.openParen, position, ['(']⟩
  let closing : Token := ⟨.closeParen, q + byteLength inner, [')']⟩
  refine ⟨opening :: (ts ++ [closing]), e, n + 1, .group rfl rfl joined, by omega,
    fun source placed => reads source placed.right.left, fun rest parts => ?_⟩
  exact .append (lexes_open _ _) (.append (lexes _ (.cons (.inr (.inl rfl)))) (lexes_close _ _))

theorem reparses_series {phrase : List Token → ParsedExpr → Nat → Prop} {bound : Nat}
    {value : TreeExpr} {values : List TreeExpr} {text : List Char} {texts : List (List Char)}
    (first : Reparses phrase bound value text)
    (others : List.Forall₂ (Reparses phrase bound) values texts) (position : Nat) :
    ∃ ts es n, Series phrase ts es n ∧ n + 1 ≤ 2 * bound ∧ es.length = values.length + 1 ∧
      (∀ source, Placed source position (Expr.listText (text :: texts)) →
        Expr.readAll (covered source) es = value :: values) ∧
      ∀ rest, Parts rest → Lexes position (Expr.listText (text :: texts)) ts rest := by
  induction others generalizing value text position with
  | nil =>
    obtain ⟨ts, e, n, derives, shallow, reads, lexes⟩ := first position
    refine ⟨ts, [e], n, .one derives, shallow, rfl, fun source placed => ?_, lexes⟩
    rw [Expr.readAll, reads source placed]
    rfl
  | @cons _ following values texts next _ ih =>
    obtain ⟨ts, e, n, derives, shallow, reads, lexes⟩ := first position
    let q := position + byteLength text
    obtain ⟨us, es, m, series, narrow, length, knows, relexes⟩ :=
      ih next (q + byteLength [','] + byteLength [' '])
    have split : Expr.listText (text :: following :: texts) =
        text ++ ([','] ++ ([' '] ++ Expr.listText (following :: texts))) := rfl
    let t : Token := ⟨.comma, q, [',']⟩
    refine ⟨ts ++ t :: us, e :: es, max n m, .more rfl derives series, by omega, by simp [length],
      fun source placed => ?_, fun rest parts => ?_⟩
    · rw [split] at placed
      rw [Expr.readAll, reads source placed.left, knows source placed.right.right.right]
    · rw [split]
      exact .append (lexes _ (.cons (.inr (.inr rfl))))
        (.append (lexes_comma _ _) (.append (.blank _ _) (relexes rest parts)))

theorem reparses_call {name : List Char} {values : List TreeExpr} {texts : List (List Char)}
    {bound : Nat} (again : ∀ rest, Rescans .functionName name ('(' :: rest))
    (args : List.Forall₂ (Reparses (Derives .or) bound) values texts) :
    Reparses (Derives .primary) (bound + 1) (.call (some name) values)
      (name ++ '(' :: Expr.listText texts ++ [')']) := by
  have split : name ++ '(' :: Expr.listText texts ++ [')'] =
      name ++ (['('] ++ (Expr.listText texts ++ [')'])) := by simp
  rw [split]
  intro position
  let q := position + byteLength name
  let fn : Token := ⟨.functionName, position, name⟩
  let opening : Token := ⟨.openParen, q, ['(']⟩
  cases args with
  | nil =>
    let closing : Token := ⟨.closeParen, q + byteLength ['('], [')']⟩
    refine ⟨[fn, opening, closing], .call fn.span [], 1, .emptyCall rfl rfl rfl, by omega,
      fun source placed => ?_, fun rest parts => ?_⟩
    · rw [Expr.read]
      exact congrArg (Expr.call · []) placed.left.covered
    · exact .append (.token (again _) _) (.append (lexes_open _ _) (lexes_close _ _))
  | @cons _ text _ texts first others =>
    obtain ⟨ts, es, n, series, shallow, -, reads, lexes⟩ :=
      reparses_series first others (q + byteLength ['('])
    let r := q + byteLength ['('] + byteLength (Expr.listText (text :: texts))
    let closing : Token := ⟨.closeParen, r, [')']⟩
    refine ⟨fn :: opening :: (ts ++ [closing]), .call fn.span es, n + 1,
      .call rfl rfl rfl series.derivesAll, by omega, fun source placed => ?_, fun rest parts => ?_⟩
    · rw [Expr.read, reads source placed.right.right.left]
      exact congrArg (Expr.call · _) placed.left.covered
    · exact .append (.token (again _) _) (.append (lexes_open _ _)
        (.append (lexes _ (.cons (.inr (.inl rfl)))) (lexes_close _ _)))

structure Sourced (source : List Char) (t : Token) : Prop where
  text : covered source t.span = some t.lexeme
  alone : standsAlone t.kind = true → ∀ rest, Parts rest → Rescans t.kind t.lexeme rest
  function : t.kind = .functionName → ∀ rest, Rescans .functionName t.lexeme ('(' :: rest)

theorem tokenize_sourced {source : String} {ts : List Token} (lexed : tokenize source = .ok ts) :
    ∀ t ∈ ts, Sourced source.toList t := by
  intro t member
  have text := tokenize_slice lexed t member
  obtain ends | ⟨c, tail, rest, lexeme, found⟩ := (tokenize_layout lexed).found t member
  · exact ⟨text, by simp [ends, standsAlone], by simp [ends]⟩
  · refine ⟨text, fun alone rest parts => ?_, fun calls rest => ?_⟩
    · exact lexeme ▸ found.rescans alone parts
    · exact lexeme ▸ found.rescans_function calls

namespace Sourced

variable {source : List Char} {t : Token} (known : Sourced source t)
include known

theorem literal {kind : LiteralKind} (is : t.kind = .literal kind) :
    Reparses (Derives .primary) 1 (.literal kind (some t.lexeme)) t.lexeme :=
  reparses_leaf (.literal kind) (known.alone (by simp [is, standsAlone]))
    (fun _ same => .literal (same.trans is)) fun _ _ found => by rw [Expr.read, found]

theorem path (is : t.kind = .identifier ∨ t.kind = .path) :
    Reparses (Derives .primary) 1 (.path (some t.lexeme)) t.lexeme := by
  have alone : standsAlone t.kind = true := by obtain is | is := is <;> simp [is, standsAlone]
  refine reparses_leaf .path (known.alone alone) (fun u same => .path ?_)
    fun _ _ found => by rw [Expr.read, found]
  rwa [same]

end Sourced

theorem Reparses.argument {bound : Nat} {value : TreeExpr} {text : List Char}
    (reparses : Reparses (Derives .primary) bound value text) {more : Nat} (le : bound ≤ more) :
    Reparses (Derives .or) more value text :=
  reparses.imp (fun _ _ _ phrase => phrase.relax (weakest_le _)) le

mutual
/-- An expression that is spelled in the source can be printed, and the text read again. -/
theorem reparses_spelled {source : List Char} {ts : List Token} {e : ParsedExpr} :
    Spells ts e → (∀ t ∈ ts, Sourced source t) →
    ∃ text, (e.read (covered source)).print? = some text ∧
      Reparses (Derives .primary) e.height (e.read (covered source)) text
  | @Spells.literal t _ is, sourced => by
    have known := sourced t List.mem_cons_self
    rw [Expr.read, known.text]
    exact ⟨t.lexeme, rfl, known.literal is⟩
  | @Spells.path t is, sourced => by
    have known := sourced t List.mem_cons_self
    rw [Expr.read, known.text]
    exact ⟨t.lexeme, rfl, known.path is⟩
  | .not _ phrase, sourced => by
    obtain ⟨text, printed, reparses⟩ :=
      reparses_spelled phrase fun t member => sourced t (List.mem_cons_of_mem _ member)
    exact ⟨_, by simp only [Expr.read, Expr.print?, printed]; rfl, reparses.not⟩
  | .binary _ left right, sourced => by
    obtain ⟨text, printed, reparses⟩ :=
      reparses_spelled left fun t member => sourced t (List.mem_append_left _ member)
    obtain ⟨other, written, again⟩ := reparses_spelled right fun t member =>
      sourced t (List.mem_append_right _ (List.mem_cons_of_mem _ member))
    exact ⟨_, by simp only [Expr.read, Expr.print?, printed, written]; rfl, reparses.binary _ again⟩
  | @Spells.call name _ _ _ es calls _ _ args, sourced => by
    have known := sourced name List.mem_cons_self
    obtain ⟨texts, printed, reparses⟩ := reparses_spelledAll args fun t member =>
      sourced t (List.mem_cons_of_mem _ (List.mem_cons_of_mem _ (List.mem_append_left _ member)))
    rw [Expr.read, known.text]
    exact ⟨_, by simp only [Expr.print?, printed]; rfl, reparses_call (known.function calls) reparses⟩
  | .group _ _ phrase, sourced =>
    reparses_spelled phrase fun t member =>
      sourced t (List.mem_cons_of_mem _ (List.mem_append_left _ member))
theorem reparses_spelledAll {source : List Char} {ts : List Token} {es : List ParsedExpr} :
    SpellsAll ts es → (∀ t ∈ ts, Sourced source t) →
    ∃ texts, Expr.printAll? (Expr.readAll (covered source) es) = some texts ∧
      List.Forall₂ (Reparses (Derives .or) (Expr.heightOfAll es))
        (Expr.readAll (covered source) es) texts
  | .none, _ => ⟨[], rfl, .nil⟩
  | .one phrase, sourced => by
    obtain ⟨text, printed, reparses⟩ := reparses_spelled phrase sourced
    refine ⟨[text], ?_, .cons (reparses.argument (Nat.le_max_left _ _)) .nil⟩
    simp only [Expr.readAll, Expr.printAll?, printed]
    rfl
  | .more _ phrase others, sourced => by
    obtain ⟨text, printed, reparses⟩ :=
      reparses_spelled phrase fun t member => sourced t (List.mem_append_left _ member)
    obtain ⟨texts, written, again⟩ := reparses_spelledAll others fun t member =>
      sourced t (List.mem_append_right _ (List.mem_cons_of_mem _ member))
    refine ⟨text :: texts, ?_, .cons (reparses.argument (Nat.le_max_left _ _))
      (again.imp fun _ _ reparses => reparses.mono (Nat.le_max_right _ _))⟩
    rw [Expr.readAll, Expr.printAll?, printed, written]
    rfl
end

theorem Reparses.named {value : TreeExpr} {text name : List Char} {bound : Nat}
    (inner : Reparses (Derives .or) bound value text)
    (again : ∀ rest, Parts rest → Rescans .identifier name rest) :
    Reparses (DerivesItem .compute) bound (.named value (some name))
      (text ++ " as ".toList ++ name) := by
  have split : text ++ " as ".toList ++ name =
      text ++ ([' '] ++ ("as".toList ++ ([' '] ++ name))) := by simp
  rw [split]
  intro position
  obtain ⟨ts, e, n, phrase, shallow, reads, lexes⟩ := inner position
  let q := position + byteLength text + byteLength [' ']
  let t : Token := ⟨.asWord, q, "as".toList⟩
  let label : Token := ⟨.identifier, q + byteLength "as".toList + byteLength [' '], name⟩
  refine ⟨ts ++ [t, label], .named e label.span, n, .named phrase rfl rfl, shallow,
    fun source placed => ?_, fun rest parts => ?_⟩
  · rw [Expr.read, reads source placed.left]
    exact congrArg (Expr.named value) placed.right.right.right.right.covered
  · exact .append (lexes _ (.cons (.inl rfl))) (.append (.blank _ _)
      (.append (.token (rescans_as (.cons (.inl rfl))) _)
        (.append (.blank _ _) (.token (again rest parts) _))))

theorem direction?_directionText (descending : Bool) :
    Parser.direction? (Expr.directionText descending) = some descending := by
  cases descending <;> rfl

theorem Reparses.ordered {value : TreeExpr} {text : List Char} {bound : Nat}
    (inner : Reparses (Derives .or) bound value text) (descending : Bool) :
    Reparses (DerivesItem .orderBy) bound (.ordered value descending)
      (text ++ ' ' :: Expr.directionText descending) := by
  intro position
  obtain ⟨ts, e, n, phrase, shallow, reads, lexes⟩ := inner position
  let q := position + byteLength text + byteLength [' ']
  let t : Token := ⟨.identifier, q, Expr.directionText descending⟩
  refine ⟨ts ++ [t], .ordered e descending, n,
    .directed phrase rfl (direction?_directionText descending), shallow, fun source placed => ?_,
    fun rest parts => ?_⟩
  · rw [Expr.read, reads source placed.left]
  · exact .append (lexes _ (.cons (.inl rfl))) (.append (.blank _ _)
      (.token (rescans_direction descending parts) _))

theorem reparses_item {source : List Char} {clause : Clause} {ts : List Token} {e : ParsedExpr}
    (spelled : SpellsItem clause ts e) (sourced : ∀ t ∈ ts, Sourced source t) :
    ∃ text, (e.read (covered source)).print? = some text ∧
      Reparses (DerivesItem clause) e.bare.height (e.read (covered source)) text := by
  cases spelled with
  | condition phrase =>
    obtain ⟨text, printed, reparses⟩ := reparses_spelled phrase sourced
    rw [phrase.bare_eq]
    have phrases := reparses.argument (Nat.le_refl _)
    exact ⟨text, printed, phrases.imp (fun _ _ _ => .condition) (Nat.le_refl _)⟩
  | @named _ _ name _ phrase _ names =>
    obtain ⟨text, printed, reparses⟩ :=
      reparses_spelled phrase fun t member => sourced t (List.mem_append_left _ member)
    have known := sourced name (by simp)
    have again := known.alone (by simp [names, standsAlone])
    rw [names] at again
    rw [Expr.read, known.text]
    exact ⟨_, by simp only [Expr.print?, printed]; rfl,
      (reparses.argument (Nat.le_refl _)).named again⟩
  | ordered phrase =>
    obtain ⟨text, printed, reparses⟩ := reparses_spelled phrase sourced
    exact ⟨_, by simp only [Expr.read, Expr.print?, printed]; rfl,
      (reparses.argument (Nat.le_refl _)).ordered false⟩
  | directed phrase _ _ =>
    obtain ⟨text, printed, reparses⟩ :=
      reparses_spelled phrase fun t member => sourced t (List.mem_append_left _ member)
    exact ⟨_, by simp only [Expr.read, Expr.print?, printed]; rfl,
      (reparses.argument (Nat.le_refl _)).ordered _⟩

theorem reparses_items {source : List Char} {clause : Clause} {ts : List Token}
    {es : List ParsedExpr} (spelled : SpellsItems clause ts es)
    (sourced : ∀ t ∈ ts, Sourced source t) {bound : Nat} (low : ∀ e ∈ es, e.bare.height ≤ bound) :
    ∃ text texts, Expr.printAll? (Expr.readAll (covered source) es) = some (text :: texts) ∧
      List.Forall₂ (Reparses (DerivesItem clause) bound) (Expr.readAll (covered source) es)
        (text :: texts) := by
  induction spelled with
  | one item =>
    obtain ⟨text, printed, reparses⟩ := reparses_item item sourced
    refine ⟨text, [], ?_, .cons (reparses.mono (low _ List.mem_cons_self)) .nil⟩
    rw [Expr.readAll, Expr.printAll?, printed]
    rfl
  | more _ item _ ih =>
    obtain ⟨text, printed, reparses⟩ :=
      reparses_item item fun t member => sourced t (List.mem_append_left _ member)
    obtain ⟨next, texts, written, again⟩ := ih
      (fun t member => sourced t (List.mem_append_right _ (List.mem_cons_of_mem _ member)))
      fun e member => low e (List.mem_cons_of_mem _ member)
    refine ⟨text, next :: texts, ?_, .cons (reparses.mono (low _ List.mem_cons_self)) again⟩
    rw [Expr.readAll, Expr.printAll?, printed, written]
    rfl

theorem clause_reparses {source : String} {clause : Clause} {ts : List Token}
    {es : List ParsedExpr} (lexed : tokenize source = .ok ts)
    (parsed : Parser.clause clause ts = .ok es) {bound : Nat}
    (low : ∀ e ∈ es, e.bare.height ≤ bound) :
    ∃ text us fs n, Expr.itemsText? (Expr.readAll (covered source.toList) es) = some text ∧
      tokenize (String.ofList text) = .ok us ∧ n + 1 ≤ 2 * bound ∧
      Expr.readAll (covered text) fs = Expr.readAll (covered source.toList) es ∧
      Answers (WithinAll n fs) fs (Parser.clause clause us) := by
  obtain ⟨body, last, rfl, -, spelled⟩ := clause_spelling lexed parsed
  obtain ⟨text, texts, printed, reparses⟩ := reparses_items spelled
    (fun t member => tokenize_sourced lexed t (List.mem_append_left _ member)) low
  cases items : Expr.readAll (covered source.toList) es with
  | nil => simp [items] at reparses
  | cons value values =>
    rw [items] at printed reparses
    obtain ⟨first, others⟩ := List.forall₂_cons.1 reparses
    obtain ⟨us, fs, n, series, shallow, length, reads, lexes⟩ := reparses_series first others 0
    have single : clause = .filter → fs.length = 1 := by
      rintro rfl
      obtain ⟨e, -, rfl⟩ := Outcome.map_eq_ok.1 parsed
      cases items
      exact length
    refine ⟨_, _, fs, n, ?_, (lexes [] .nil).tokenize, shallow, reads _ (.whole _),
      clause_follows series single rfl⟩
    rw [Expr.itemsText?, printed]
    rfl

theorem bare_height_le {text? source? : Span → Option (List Char)} {es fs : List ParsedExpr}
    (same : Expr.readAll text? fs = Expr.readAll source? es) {bound : Nat}
    (low : ∀ e ∈ es, e.bare.height ≤ bound) : ∀ f ∈ fs, f.bare.height ≤ bound := by
  intro f member
  rw [Expr.readAll_eq_map, Expr.readAll_eq_map] at same
  obtain ⟨e, found, equal⟩ := List.mem_map.1 (same ▸ List.mem_map_of_mem member)
  calc f.bare.height = (f.read text?).bare.height := by rw [Expr.bare_read, Expr.height_read]
    _ = (e.read source?).bare.height := by rw [equal]
    _ = e.bare.height := by rw [Expr.bare_read, Expr.height_read]
    _ ≤ bound := low e found

end RoundTrip

namespace Pool

theorem items?_covered {p : Pool} (reachable : p.Reachable) (source : String) {clause : Clause}
    {ts : List Token} {es : List ParsedExpr} (parsed : Parser.clause clause ts = .ok es)
    (room : Expr.sizeOfAll es ≤ handles) :
    p.items? clause source ts = .ok (some (Expr.readAll (covered source.toList) es)) := by
  cases clause with
  | filter =>
    obtain ⟨e, built, rfl⟩ := Outcome.map_eq_ok.1 parsed
    rw [items?, parseFilter_eq, built]
    exact congrArg (fun e => Except.ok (some [e])) (reachable.view_store source.toList room)
  | compute =>
    rw [Parser.clause] at parsed
    rw [items?, parseCompute_eq, parsed]
    have many := (Parser.compute_size parsed).1
    exact congrArg Except.ok (reachable.viewList?_storeItems source.toList room many)
  | orderBy =>
    rw [Parser.clause] at parsed
    rw [items?, parseOrderBy_eq, parsed]
    have many := (Parser.orderBy_size parsed).1
    exact congrArg Except.ok (reachable.viewList?_storeItems source.toList room many)

end Pool

end ClauseSql
