import ClauseSql.Compiler
import ClauseSql.Proofs.ParserExactness

/-! Which tokens an expression is made of, without regard to how strongly operators bind. Every clause
that the parser accepts is spelled by its tokens, from the first one up to the end marker, so every
part of a parsed expression is spelled by tokens that stand together in the source. -/
namespace ClauseSql

namespace Parser

def clause (clause : Clause) (ts : List Token) : Except Stop (List ParsedExpr) :=
  match clause with
  | .filter => (filter ts).map fun e => [e]
  | .compute => compute ts
  | .orderBy => orderBy ts

theorem compute_ok {ts : List Token} {es : List ParsedExpr} (done : compute ts = .ok es) :
    items computeItem ts = .ok es := by
  unfold compute at done
  split at done
  · cases done
  · exact done

theorem orderBy_ok {ts : List Token} {es : List ParsedExpr} (done : orderBy ts = .ok es) :
    items orderItem ts = .ok es := by
  unfold orderBy at done
  split at done
  · cases done
  · exact done

end Parser

inductive Expr.Part {σ β : Type} (part : Expr σ β) : Expr σ β → Prop
  | whole : Part part part
  | not {operand : Expr σ β} : Part part operand → Part part (.not operand)
  | left {op : BinaryOperator} {left right : Expr σ β} : Part part left →
      Part part (.binary op left right)
  | right {op : BinaryOperator} {left right : Expr σ β} : Part part right →
      Part part (.binary op left right)
  | argument {name : σ} {arg : Expr σ β} {args : List (Expr σ β)} : arg ∈ args → Part part arg →
      Part part (.call name args)
  | named {value : Expr σ β} {name : σ} : Part part value → Part part (.named value name)
  | ordered {value : Expr σ β} {descending : Bool} : Part part value →
      Part part (.ordered value descending)

namespace Grammar

open ClauseSql.Parser

mutual
/-- The tokens make up the expression, however they are grouped. -/
inductive Spells : List Token → ParsedExpr → Prop
  | literal {t : Token} {kind : LiteralKind} :
      t.kind = .literal kind → Spells [t] (.literal kind t.span)
  | path {t : Token} : t.kind = .identifier ∨ t.kind = .path → Spells [t] (.path t.span)
  | not {t : Token} {ts : List Token} {e : ParsedExpr} :
      t.kind = .not → Spells ts e → Spells (t :: ts) (.not e)
  | binary {op : BinaryOperator} {t : Token} {ts us : List Token} {l r : ParsedExpr} :
      t.kind = .operator op → Spells ts l → Spells us r → Spells (ts ++ t :: us) (.binary op l r)
  | call {name opening closing : Token} {ts : List Token} {es : List ParsedExpr} :
      name.kind = .functionName → opening.kind = .openParen → closing.kind = .closeParen →
      SpellsAll ts es → Spells (name :: opening :: (ts ++ [closing])) (.call name.span es)
  | group {opening closing : Token} {ts : List Token} {e : ParsedExpr} :
      opening.kind = .openParen → closing.kind = .closeParen → Spells ts e →
      Spells (opening :: (ts ++ [closing])) e
inductive SpellsAll : List Token → List ParsedExpr → Prop
  | none : SpellsAll [] []
  | one {ts : List Token} {e : ParsedExpr} : Spells ts e → SpellsAll ts [e]
  | more {t : Token} {ts us : List Token} {e f : ParsedExpr} {es : List ParsedExpr} :
      t.kind = .comma → Spells ts e → SpellsAll us (f :: es) →
      SpellsAll (ts ++ t :: us) (e :: f :: es)
end

/-- The tokens of one item. Ascending order needs no word. -/
inductive SpellsItem : Clause → List Token → ParsedExpr → Prop
  | condition {ts : List Token} {e : ParsedExpr} : Spells ts e → SpellsItem .filter ts e
  | named {ts : List Token} {t name : Token} {e : ParsedExpr} :
      Spells ts e → t.kind = .asWord → name.kind = .identifier →
      SpellsItem .compute (ts ++ [t, name]) (.named e name.span)
  | ordered {ts : List Token} {e : ParsedExpr} :
      Spells ts e → SpellsItem .orderBy ts (.ordered e false)
  | directed {ts : List Token} {t : Token} {e : ParsedExpr} {descending : Bool} :
      Spells ts e → t.kind = .identifier → direction? t.lexeme = some descending →
      SpellsItem .orderBy (ts ++ [t]) (.ordered e descending)

inductive SpellsItems (clause : Clause) : List Token → List ParsedExpr → Prop
  | one {ts : List Token} {e : ParsedExpr} : SpellsItem clause ts e → SpellsItems clause ts [e]
  | more {t : Token} {ts us : List Token} {e : ParsedExpr} {es : List ParsedExpr} :
      t.kind = .comma → SpellsItem clause ts e → SpellsItems clause us es →
      SpellsItems clause (ts ++ t :: us) (e :: es)

mutual
theorem Spells.proper {ts : List Token} {e : ParsedExpr} : Spells ts e → ∀ t ∈ ts, t.kind ≠ .eof
  | .literal kind => by simp [kind]
  | .path kind => by rcases kind with kind | kind <;> simp [kind]
  | .not kind phrase => by simpa [kind] using phrase.proper
  | .binary kind left right => by
    simp only [List.mem_append, List.mem_cons]
    rintro t (member | rfl | member)
    · exact left.proper t member
    · simp [kind]
    · exact right.proper t member
  | .call calls opens closes args => by
    simpa [calls, opens, closes, or_imp, forall_and] using args.proper
  | .group opens closes phrase => by
    simpa [opens, closes, or_imp, forall_and] using phrase.proper
theorem SpellsAll.proper {ts : List Token} {es : List ParsedExpr} :
    SpellsAll ts es → ∀ t ∈ ts, t.kind ≠ .eof
  | .none => by simp
  | .one phrase => phrase.proper
  | .more kind phrase others => by
    simp only [List.mem_append, List.mem_cons]
    rintro t (member | rfl | member)
    · exact phrase.proper t member
    · simp [kind]
    · exact others.proper t member
end

theorem SpellsItem.proper {clause : Clause} {ts : List Token} {e : ParsedExpr}
    (spelled : SpellsItem clause ts e) : ∀ t ∈ ts, t.kind ≠ .eof := by
  cases spelled with
  | condition phrase => exact phrase.proper
  | named phrase joins names => simpa [joins, names, or_imp, forall_and] using phrase.proper
  | ordered phrase => exact phrase.proper
  | directed phrase word _ => simpa [word, or_imp, forall_and] using phrase.proper

theorem SpellsItems.proper {clause : Clause} {ts : List Token} {es : List ParsedExpr}
    (spelled : SpellsItems clause ts es) : ∀ t ∈ ts, t.kind ≠ .eof := by
  induction spelled with
  | one item => exact item.proper
  | more comma item _ ih =>
    simp only [List.mem_append, List.mem_cons]
    rintro t (member | rfl | member)
    · exact item.proper t member
    · simp [comma]
    · exact ih t member

theorem Spells.bare_eq {ts : List Token} {e : ParsedExpr} : Spells ts e → e.bare = e
  | .literal _ => rfl
  | .path _ => rfl
  | .not _ _ => rfl
  | .binary _ _ _ => rfl
  | .call _ _ _ _ => rfl
  | .group _ _ phrase => phrase.bare_eq

def Spelling (rule : Rule) : Prop :=
  ∀ power ts r, rule power ts = .ok r → ∃ used, ts = used ++ r.rest ∧ Spells used r.value.expr

theorem arguments_spelling {rule : Rule} (spelling : Spelling rule) {openedAt : Nat}
    {ts : List Token} {r : Reading (List ParsedExpr × Nat) ts}
    (done : arguments rule openedAt ts = .ok r) :
    ∃ used closing f es, ts = used ++ closing :: r.rest ∧ closing.kind = .closeParen ∧
      r.value.1 = f :: es ∧ SpellsAll used (f :: es) := by
  obtain ⟨arg, t, rest, read, follows, last⟩ := arguments_ok done
  obtain ⟨used, whole, phrase⟩ := spelling _ _ _ read
  rw [follows] at whole
  obtain ⟨closes, value, same⟩ | ⟨comma, more, others, value, same⟩ := last
  · exact ⟨used, t, arg.value.expr, [], by rwa [same], closes, by rw [value], .one phrase⟩
  · have less : rest.length < ts.length := by
      have shorter := arg.shorter
      rw [follows] at shorter
      exact Nat.lt_of_succ_lt shorter
    obtain ⟨taken, closing, f, es, split, closes, args, phrases⟩ :=
      arguments_spelling spelling others
    refine ⟨used ++ t :: taken, closing, arg.value.expr, f :: es, ?_, closes, ?_,
      .more comma phrase phrases⟩
    · simp [whole, split, same]
    · rw [value, args]
termination_by ts.length

theorem call_spelling {rule : Rule} (spelling : Spelling rule) {name : Token} {ts : List Token}
    {r : Reading Sized (name :: ts)} (calls : name.kind = .functionName)
    (done : call rule name ts = .ok r) :
    ∃ used, name :: ts = used ++ r.rest ∧ Spells used r.value.expr := by
  obtain ⟨opening, t, rest, rfl, opens, inside⟩ := call_ok done
  obtain ⟨closes, value, same⟩ | ⟨args, read, -, value, same⟩ := inside
  · refine ⟨[name, opening, t], by simp [same], ?_⟩
    rw [value]
    exact .call calls opens closes .none
  · obtain ⟨used, closing, f, es, whole, closes, made, phrases⟩ := arguments_spelling spelling read
    refine ⟨name :: opening :: (used ++ [closing]), by simp [same, whole], ?_⟩
    rw [value, made]
    exact .call calls opens closes phrases

theorem parenthesized_spelling {rule : Rule} (spelling : Spelling rule) {opening : Token}
    {ts : List Token} {r : Reading Sized (opening :: ts)} (opens : opening.kind = .openParen)
    (done : parenthesized rule opening ts = .ok r) :
    ∃ used, opening :: ts = used ++ r.rest ∧ Spells used r.value.expr := by
  obtain ⟨inner, t, read, follows, closes, value⟩ := parenthesized_ok done
  obtain ⟨used, whole, phrase⟩ := spelling _ _ _ read
  rw [follows] at whole
  refine ⟨opening :: (used ++ [t]), by simp [whole], ?_⟩
  rw [value]
  exact .group opens closes phrase

theorem primary_spelling {rule : Rule} (spelling : Spelling rule) {first : Token} {ts : List Token}
    {r : Reading Sized (first :: ts)} (done : primary rule first ts = .ok r) :
    ∃ used, first :: ts = used ++ r.rest ∧ Spells used r.value.expr := by
  unfold primary at done
  split at done
  · next kind is => cases done; exact ⟨[first], rfl, .literal is⟩
  · next is => cases done; exact ⟨[first], rfl, .path (.inl is)⟩
  · next is => cases done; exact ⟨[first], rfl, .path (.inr is)⟩
  · next is => exact call_spelling spelling is done
  · next is => exact parenthesized_spelling spelling is done
  · next is =>
    split at done
    · cases done
    · next operand read =>
      obtain ⟨rfl, -⟩ := bounded_ok done
      obtain ⟨used, whole, phrase⟩ := spelling _ _ _ read
      exact ⟨first :: used, congrArg (first :: ·) whole, .not is phrase⟩
  · cases done

theorem operators_spelling {rule : Rule} (spelling : Spelling rule) {power : Nat} {compared : Bool}
    {input used : List Token} {left result : Reading Sized input}
    (done : operators rule power compared left = .ok result) (whole : input = used ++ left.rest)
    (phrase : Spells used left.value.expr) :
    ∃ used, input = used ++ result.rest ∧ Spells used result.value.expr := by
  obtain ⟨rfl, -⟩ | ⟨t, ts, op, right, less, follows, kind, -, -, read, -, more⟩ := operators_ok done
  · exact ⟨used, whole, phrase⟩
  · obtain ⟨taken, split, operand⟩ := spelling _ _ _ read
    rw [follows, split] at whole
    exact operators_spelling spelling more (by simpa using whole) (.binary kind phrase operand)
termination_by left.rest.length
decreasing_by
  rw [follows]
  exact Nat.lt_succ_of_lt right.shorter

theorem nested_spelling (depth : Nat) : Spelling (nested depth) := by
  induction depth with
  | zero =>
    intro power ts r done
    cases ts <;> cases done
  | succ depth ih =>
    intro power ts r done
    cases ts with
    | nil => cases done
    | cons first rest =>
      rw [nested_succ] at done
      split at done
      · cases done
      · next left read =>
        obtain ⟨used, whole, phrase⟩ := primary_spelling ih read
        exact operators_spelling ih done whole phrase

theorem expression_spelling {ts : List Token} {r : Reading Sized ts}
    (done : expression ts = .ok r) : ∃ used, ts = used ++ r.rest ∧ Spells used r.value.expr :=
  nested_spelling nestingLimit 0 ts r done

theorem computeItem_spelling {ts : List Token} {r : Reading ParsedExpr ts}
    (done : computeItem ts = .ok r) :
    ∃ used, ts = used ++ r.rest ∧ SpellsItem .compute used r.value := by
  obtain ⟨value, t, name, read, follows, joins, names, made⟩ := computeItem_ok done
  obtain ⟨used, whole, phrase⟩ := expression_spelling read
  rw [follows] at whole
  refine ⟨used ++ [t, name], by simp [whole], ?_⟩
  rw [made]
  exact .named phrase joins names

theorem orderItem_spelling {ts : List Token} {r : Reading ParsedExpr ts}
    (done : orderItem ts = .ok r) :
    ∃ used, ts = used ++ r.rest ∧ SpellsItem .orderBy used r.value := by
  obtain ⟨value, read, made⟩ := orderItem_ok done
  obtain ⟨used, whole, phrase⟩ := expression_spelling read
  obtain ⟨same, made⟩ | ⟨t, descending, follows, word, direction, made⟩ := made
  · refine ⟨used, by rw [same, ← whole], ?_⟩
    rw [made]
    exact .ordered phrase
  · rw [follows] at whole
    refine ⟨used ++ [t], by simp [whole], ?_⟩
    rw [made]
    exact .directed phrase word direction

theorem items_spelling {clause : Clause}
    {item : (ts : List Token) → Except Stop (Reading ParsedExpr ts)}
    (spelling : ∀ {ts} {r : Reading ParsedExpr ts}, item ts = .ok r →
      ∃ used, ts = used ++ r.rest ∧ SpellsItem clause used r.value)
    {ts : List Token} {es : List ParsedExpr} (done : items item ts = .ok es) :
    ∃ used rest, ts = used ++ rest ∧ SpellsItems clause used es ∧ ∀ t ∈ rest.head?, t.kind = .eof := by
  obtain ⟨first, read, last⟩ := items_ok done
  obtain ⟨used, whole, phrase⟩ := spelling read
  obtain ⟨rfl, ends⟩ | ⟨t, rest, more, follows, comma, others, rfl⟩ := last
  · exact ⟨used, first.rest, whole, .one phrase, ends⟩
  · have less : rest.length < ts.length := by
      have shorter := first.shorter
      rw [follows] at shorter
      exact Nat.lt_of_succ_lt shorter
    obtain ⟨taken, left, split, phrases, ends⟩ := items_spelling spelling others
    refine ⟨used ++ t :: taken, left, ?_, .more comma phrase phrases, ends⟩
    rw [whole, follows, split]
    simp
termination_by ts.length

theorem split_endMarked {body used rest : List Token} {last : Token}
    (split : body ++ [last] = used ++ rest) (ends : last.kind = .eof)
    (proper : ∀ t ∈ body, t.kind ≠ .eof) (inside : ∀ t ∈ used, t.kind ≠ .eof)
    (next : ∀ t ∈ rest.head?, t.kind = .eof) : used = body := by
  cases rest with
  | nil =>
    rw [List.append_nil] at split
    exact absurd ends (inside last (by simp [← split]))
  | cons t rest =>
    obtain rfl := rest_endMarked split (next t rfl) proper
    exact (List.append_inj' split rfl).1.symm

/-- The tokens of a clause spell its items, up to the end marker. -/
theorem clause_spelling {source : String} {ts : List Token} {clause : Clause}
    {es : List ParsedExpr} (lexed : Token.tokenize source = .ok ts)
    (done : Parser.clause clause ts = .ok es) :
    ∃ body last, ts = body ++ [last] ∧ last.kind = .eof ∧ SpellsItems clause body es := by
  obtain ⟨body, last, rfl, ends, proper⟩ := Lexing.tokenize_endMarked lexed
  have spelled : ∃ used rest, body ++ [last] = used ++ rest ∧ SpellsItems clause used es ∧
      ∀ t ∈ rest.head?, t.kind = .eof := by
    cases clause with
    | filter =>
      obtain ⟨e, parsed, rfl⟩ := Outcome.map_eq_ok.1 done
      obtain ⟨root, read, rfl, next⟩ := filter_ok parsed
      obtain ⟨used, whole, phrase⟩ := expression_spelling read
      exact ⟨used, root.rest, whole, .one (.condition phrase), next⟩
    | compute => exact items_spelling computeItem_spelling (compute_ok done)
    | orderBy => exact items_spelling orderItem_spelling (orderBy_ok done)
  obtain ⟨used, rest, split, items, next⟩ := spelled
  obtain rfl := split_endMarked split ends proper items.proper next
  exact ⟨used, last, rfl, ends, items⟩

mutual
theorem Spells.part {ts : List Token} {e part : ParsedExpr} :
    Spells ts e → part.Part e → ∃ us, us <:+: ts ∧ Spells us part
  | .literal kind, inside => by
    cases inside with
    | whole => exact ⟨_, List.infix_rfl, .literal kind⟩
  | .path kind, inside => by
    cases inside with
    | whole => exact ⟨_, List.infix_rfl, .path kind⟩
  | .not kind phrase, inside => by
    cases inside with
    | whole => exact ⟨_, List.infix_rfl, .not kind phrase⟩
    | not inside =>
      obtain ⟨us, within, spelled⟩ := phrase.part inside
      exact ⟨us, List.infix_cons within, spelled⟩
  | .binary kind left right, inside => by
    cases inside with
    | whole => exact ⟨_, List.infix_rfl, .binary kind left right⟩
    | left inside =>
      obtain ⟨us, within, spelled⟩ := left.part inside
      exact ⟨us, within.trans (List.prefix_append _ _).isInfix, spelled⟩
    | right inside =>
      obtain ⟨us, within, spelled⟩ := right.part inside
      exact ⟨us, (List.infix_cons within).trans (List.suffix_append _ _).isInfix, spelled⟩
  | .call calls opens closes args, inside => by
    cases inside with
    | whole => exact ⟨_, List.infix_rfl, .call calls opens closes args⟩
    | argument member inside =>
      obtain ⟨us, within, spelled⟩ := args.part member inside
      refine ⟨us, List.infix_cons (List.infix_cons ?_), spelled⟩
      exact within.trans (List.prefix_append _ _).isInfix
  | .group _ _ phrase, inside => by
    obtain ⟨us, within, spelled⟩ := phrase.part inside
    exact ⟨us, List.infix_cons (within.trans (List.prefix_append _ _).isInfix), spelled⟩
theorem SpellsAll.part {ts : List Token} {es : List ParsedExpr} {e part : ParsedExpr} :
    SpellsAll ts es → e ∈ es → part.Part e → ∃ us, us <:+: ts ∧ Spells us part
  | .one phrase, member, inside => phrase.part (List.mem_singleton.1 member ▸ inside)
  | .more _ phrase others, member, inside => by
    obtain same | later := List.mem_cons.1 member
    · obtain ⟨us, within, spelled⟩ := phrase.part (same ▸ inside)
      exact ⟨us, within.trans (List.prefix_append _ _).isInfix, spelled⟩
    · obtain ⟨us, within, spelled⟩ := others.part later inside
      exact ⟨us, (List.infix_cons within).trans (List.suffix_append _ _).isInfix, spelled⟩
end

theorem Spells.call_tokens {ts : List Token} {name : Span} {es : List ParsedExpr} {e : ParsedExpr} :
    Spells ts e → e = .call name es → ∃ t opening us closing,
      t :: opening :: (us ++ [closing]) <:+: ts ∧ t.kind = .functionName ∧ t.span = name ∧
      opening.kind = .openParen ∧ closing.kind = .closeParen ∧ SpellsAll us es
  | .call calls opens closes args, same => by
    cases same
    exact ⟨_, _, _, _, List.infix_rfl, calls, rfl, opens, closes, args⟩
  | .group _ _ phrase, same => by
    obtain ⟨t, opening, us, closing, within, found⟩ := phrase.call_tokens same
    exact ⟨t, opening, us, closing,
      List.infix_cons (within.trans (List.prefix_append _ _).isInfix), found⟩

theorem SpellsItems.call_tokens {clause : Clause} {ts : List Token} {es args : List ParsedExpr}
    {e : ParsedExpr} {name : Span} (spelled : SpellsItems clause ts es) (member : e ∈ es)
    (inside : (Expr.call name args : ParsedExpr).Part e) : ∃ t opening us closing,
      t :: opening :: (us ++ [closing]) <:+: ts ∧ t.kind = .functionName ∧ t.span = name ∧
      opening.kind = .openParen ∧ closing.kind = .closeParen ∧ SpellsAll us args := by
  have item {ts : List Token} (spelled : SpellsItem clause ts e) :
      ∃ us, us <:+: ts ∧ Spells us (.call name args) := by
    cases spelled with
    | condition phrase => exact phrase.part inside
    | named phrase joins names =>
      cases inside with
      | named inside =>
        obtain ⟨us, within, spelled⟩ := phrase.part inside
        exact ⟨us, within.trans (List.prefix_append _ _).isInfix, spelled⟩
    | ordered phrase =>
      cases inside with
      | ordered inside => exact phrase.part inside
    | directed phrase word direction =>
      cases inside with
      | ordered inside =>
        obtain ⟨us, within, spelled⟩ := phrase.part inside
        exact ⟨us, within.trans (List.prefix_append _ _).isInfix, spelled⟩
  have call : ∃ us, us <:+: ts ∧ Spells us (.call name args) := by
    induction spelled with
    | one spelled =>
      obtain rfl := List.mem_singleton.1 member
      exact item spelled
    | more comma spelled _ ih =>
      obtain rfl | later := List.mem_cons.1 member
      · obtain ⟨us, within, phrase⟩ := item spelled
        exact ⟨us, within.trans (List.prefix_append _ _).isInfix, phrase⟩
      · obtain ⟨us, within, phrase⟩ := ih later
        exact ⟨us, (List.infix_cons within).trans (List.suffix_append _ _).isInfix, phrase⟩
  obtain ⟨us, within, phrase⟩ := call
  obtain ⟨t, opening, inner, closing, between, found⟩ := phrase.call_tokens rfl
  exact ⟨t, opening, inner, closing, between.trans within, found⟩

end Grammar

end ClauseSql
