import ClauseSql.Proofs.Lookahead
import ClauseSql.Proofs.RoundTrip
import ClauseSql.Proofs.Separation

/-! Compute and order clauses with a comma between them are a clause whose items are those of the first and
then those of the second. So a clause can be repeated any number of times. A tree keeps the number of its
items modulo the number of handles, and nothing is read of a clause that has exactly so many. -/
namespace ClauseSql

open Outcome Text

mutual
theorem Expr.Alike.read {like : TextLikeness} {o p : Tree.Origin} {e f : ParsedExpr}
    (alike : Expr.Alike (like.spans o p) e f) : Expr.Alike like (e.read o.text?) (f.read p.text?) := by
  match alike with
  | .literal text => exact .literal text
  | .path text => exact .path text
  | .not inner => exact .not inner.read
  | .binary left right => exact .binary left.read right.read
  | .call name args => exact .call name args.readAll
  | .named value name => exact .named value.read name
  | .ordered value => exact .ordered value.read
  | @Expr.Alike.broken _ _ _ _ _ reason _ => exact nomatch reason
  | @Expr.Alike.brokenCall _ _ _ _ _ _ _ reason _ _ => exact nomatch reason
theorem Expr.AlikeAll.readAll {like : TextLikeness} {o p : Tree.Origin} {es fs : List ParsedExpr}
    (alike : Expr.AlikeAll (like.spans o p) es fs) :
    Expr.AlikeAll like (Expr.readAll o.text? es) (Expr.readAll p.text? fs) := by
  match alike with
  | .nil => exact .nil
  | .cons first others => exact .cons first.read others.readAll
end

theorem Likeness.clause_agree {like : Likeness Span Span} {ts us : List Token} (clause : Clause)
    (alike : List.Forall₂ like.Tokens ts us) :
    Agree (Expr.AlikeAll like) (Parser.clause clause ts) (Parser.clause clause us) := by
  cases clause with
  | filter =>
    have same := filter_agree alike
    rw [Parser.clause, Parser.clause]
    generalize Parser.filter ts = left at same ⊢
    generalize Parser.filter us = right at same ⊢
    cases same with
    | ok same => exact .ok (.cons same .nil)
    | error => exact .error
  | compute => exact compute_agree alike
  | orderBy => exact orderBy_agree alike

theorem tokens_same_texts {o p : Tree.Origin} {ts us : List Token}
    (same : List.Forall₂ (fun t u => t.kind = u.kind ∧ t.lexeme = u.lexeme ∧
      o.text? t.span = p.text? u.span) ts us) : List.Forall₂ (sameTexts.spans o p).Tokens ts us := by
  refine same.imp fun t u equal => ?_
  obtain ⟨kind, lexeme, text⟩ := equal
  refine ⟨kind, ?_, fun _ => by rw [lexeme]⟩
  unfold Likeness.ofKind
  split
  · exact text
  · exact text
  · exact text
  · exact text
  · trivial

namespace Lexing

open Token

theorem covered_before {source : String} {ts : List Token} (lexed : tokenize source = .ok ts)
    {t : Token} (member : t ∈ ts) (rest : List Char) :
    covered (source.toList ++ rest) t.span = some t.lexeme := by
  obtain ⟨front, back, split, start⟩ := (tokenize_layout lexed).placed t member
  rw [split, covered, Token.span, Token.stop, Token.length, start, Nat.zero_add]
  simpa using slice?_append front t.lexeme (back ++ rest)

theorem covered_behind {source : String} {ts : List Token} (lexed : tokenize source = .ok ts)
    {t : Token} (member : t ∈ ts) (before : List Char) :
    covered (before ++ source.toList) (t.shift (byteLength before)).span = some t.lexeme := by
  obtain ⟨front, back, split, start⟩ := (tokenize_layout lexed).placed t member
  have begins : (t.shift (byteLength before)).start = byteLength (before ++ front) := by
    rw [byteLength_append, Token.shift, start, Nat.zero_add, Nat.add_comm]
  rw [split, ← List.append_assoc, covered, Token.span, Token.stop, Token.length, begins]
  exact slice?_append (before ++ front) t.lexeme back

theorem tokenize_comma {a b : String} {ts us : List Token} (left : tokenize a = .ok ts)
    (right : tokenize b = .ok us) :
    tokenize (a ++ "," ++ b) = .ok (ts.dropLast ++ ⟨.comma, byteLength a.toList, [',']⟩ ::
      us.map (Token.shift (byteLength (a.toList ++ [','])))) := by
  have apart : Apart (',' :: b.toList) := .cons rfl _
  have front := (lexes_apart left apart).append (RoundTrip.lexes_comma _ b.toList)
  have whole := front.shifted
  have alone : tokensFrom 0 b.toList = .ok us := right
  rw [alone] at whole
  simpa [tokenize, Except.map, Except.mapError] using whole

theorem length_tokenize_comma {a b : String} {ts us both : List Token} (left : tokenize a = .ok ts)
    (right : tokenize b = .ok us) (whole : tokenize (a ++ "," ++ b) = .ok both) :
    both.length = ts.length + us.length := by
  obtain ⟨body, last, rfl, -⟩ := tokenize_endMarked left
  cases whole.symm.trans (tokenize_comma left right)
  simp only [List.dropLast_concat, List.length_append, List.length_cons, List.length_map, List.length_nil]
  omega

theorem length_eq_worth {source : String} {ts : List Token} (lexed : tokenize source = .ok ts) :
    ts.length = Parser.worth ts + 1 := by
  obtain ⟨body, last, rfl, ends, proper⟩ := tokenize_endMarked lexed
  rw [Parser.worth, List.countP_append, List.countP_singleton,
    List.countP_eq_length.2 (by simpa using proper)]
  simp [ends]

theorem length_le_of_short {source : String} (short : byteLength source.toList < handles) :
    ∀ ts, tokenize source = .ok ts → ts.length ≤ handles := by
  intro ts lexed
  rw [length_eq_worth lexed]
  exact worth_lt_handles lexed short

end Lexing

theorem Parser.clause_size {clause : Clause} {ts : List Token} {es : List ParsedExpr}
    (parsed : Parser.clause clause ts = .ok es) : Expr.sizeOfAll es ≤ Parser.worth ts + 1 := by
  cases clause with
  | filter =>
    obtain ⟨e, built, rfl⟩ := map_eq_ok.1 parsed
    exact Nat.le_succ_of_le (Parser.filter_size built)
  | compute => exact (Parser.compute_size parsed).2
  | orderBy => exact (Parser.orderBy_size parsed).2

theorem Parser.clause_size_le_length {source : String} {clause : Clause} {ts : List Token}
    {es : List ParsedExpr} (lexed : Token.tokenize source = .ok ts)
    (parsed : Parser.clause clause ts = .ok es) : Expr.sizeOfAll es ≤ ts.length := by
  rw [Lexing.length_eq_worth lexed]
  exact Parser.clause_size parsed

namespace Tree

/-- The number of handles in a run is kept modulo the number of all handles. -/
theorem args?_pushArgs_of_full (t : Tree) {ids : List NodeId} (full : handles ∣ ids.length) :
    (t.pushArgs ids).2.args? (t.pushArgs ids).1 = some [] := by
  have none : (t.pushArgs ids).1.length.toNat = 0 := by
    rw [pushArgs, Nat.toUInt32, UInt32.toNat_ofNat']
    exact Nat.mod_eq_zero_of_dvd full
  have start : (t.pushArgs ids).1.start.toNat ≤ t.held := by
    rw [pushArgs, Nat.toUInt32, UInt32.toNat_ofNat']
    exact Nat.mod_le _ _
  have inside : (t.pushArgs ids).1.start.toNat + (t.pushArgs ids).1.length.toNat ≤
      (t.pushArgs ids).2.storage.arguments.size := by
    have size := t.held_pushArgs ids
    rw [held] at size
    omega
  rw [args?, if_pos inside, none, Nat.add_zero, Array.toList_extract, List.extract_eq_take_drop,
    Nat.sub_self, List.take_zero]

end Tree

theorem Pool.items?_of_full (p : Pool) (source : String) {clause : Clause} (list : clause ≠ .filter)
    {ts : List Token} {es : List ParsedExpr} (parsed : Parser.clause clause ts = .ok es)
    (full : handles ∣ es.length) : p.items? clause source ts = .ok (some []) := by
  have listed (t : Tree) : (storeItems t es).2.viewList? (storeItems t es).1 = some [] := by
    rw [Tree.viewList?, storeItems, Tree.args?_pushArgs_of_full _ ((t.length_storeAll es).symm ▸ full)]
    rfl
  cases clause with
  | filter => exact absurd rfl list
  | compute =>
    rw [Parser.clause] at parsed
    rw [items?, parseCompute_eq, parsed]
    exact congrArg Except.ok (listed _)
  | orderBy =>
    rw [Parser.clause] at parsed
    rw [items?, parseOrderBy_eq, parsed]
    exact congrArg Except.ok (listed _)

theorem forall₂_replicate {α β : Type} {R : α → β → Prop} {a : α} {b : β} (related : R a b) (n : Nat) :
    List.Forall₂ R (List.replicate n a) (List.replicate n b) := by
  induction n with
  | zero => exact .nil
  | succ n ih => exact .cons related ih

def repeated (source : String) : (n : Nat) → String
  | 0 => source
  | n + 1 => source ++ "," ++ repeated source n

theorem Lexing.tokenize_repeated {source : String} {ts : List Token}
    (lexed : Token.tokenize source = .ok ts) (n : Nat) :
    ∃ us, Token.tokenize (repeated source n) = .ok us ∧ us.length = (n + 1) * ts.length ∧
      ts.dropLast <+: us := by
  induction n with
  | zero => exact ⟨ts, lexed, by simp, ts.dropLast_prefix⟩
  | succ n ih =>
    obtain ⟨us, others, length, -⟩ := ih
    have whole := tokenize_comma lexed others
    refine ⟨_, whole, ?_, List.prefix_append _ _⟩
    rw [length_tokenize_comma lexed others whole, length, Nat.succ_mul (n + 1), Nat.add_comm]

/-- The source is read as a clause with these items. -/
def Itemized (clause : Clause) (source : String) (values : List Typing.TreeExpr) : Prop :=
  ∃ ts es, Token.tokenize source = .ok ts ∧ Parser.clause clause ts = .ok es ∧
    Expr.readAll (covered source.toList) es = values

namespace Itemized

variable {clause : Clause} {a b source : String} {values others : List Typing.TreeExpr}

theorem append (list : clause ≠ .filter) (left : Itemized clause a values)
    (right : Itemized clause b others) : Itemized clause (a ++ "," ++ b) (values ++ others) := by
  obtain ⟨ts, es, lexed, parsed, rfl⟩ := left
  obtain ⟨us, fs, relexed, reparsed, rfl⟩ := right
  obtain ⟨body, last, rfl, ends, proper⟩ := Lexing.tokenize_endMarked lexed
  have lexedBoth := Lexing.tokenize_comma lexed relexed
  rw [List.dropLast_concat] at lexedBoth
  let whole : Tree.Origin := ⟨(a ++ "," ++ b).toList, 0⟩
  have kept : List.Forall₂ (sameTexts.spans ⟨a.toList, 0⟩ whole).Tokens (body ++ [last])
      (body ++ [last]) := by
    refine tokens_same_texts (List.forall₂_same.2 fun t member => ⟨rfl, rfl, ?_⟩)
    have split : (a ++ "," ++ b).toList = a.toList ++ ',' :: b.toList := by simp
    have later := Lexing.covered_before lexed member (',' :: b.toList)
    rw [← split] at later
    exact (Lexing.tokenize_slice lexed t member).trans later.symm
  have moved : List.Forall₂ (sameTexts.spans ⟨b.toList, 0⟩ whole).Tokens us
      (us.map (Token.shift (byteLength (a.toList ++ [','])))) := by
    refine tokens_same_texts (List.forall₂_map_right_iff.2 (List.forall₂_same.2 fun t member => ?_))
    have split : (a ++ "," ++ b).toList = (a.toList ++ [',']) ++ b.toList := by simp
    have later := Lexing.covered_behind relexed member (a.toList ++ [','])
    rw [← split] at later
    exact ⟨rfl, rfl, (Lexing.tokenize_slice relexed t member).trans later.symm⟩
  have first := Likeness.clause_agree clause kept
  have second := Likeness.clause_agree clause moved
  rw [parsed] at first
  rw [reparsed] at second
  cases first with | ok first => ?_
  generalize result : Parser.clause clause (us.map _) = shifted at second
  cases second with | ok second => ?_
  refine ⟨_, _, lexedBoth, Parser.clause_append list ends proper rfl parsed result, ?_⟩
  rw [Expr.readAll_eq_map, List.map_append, ← Expr.readAll_eq_map, ← Expr.readAll_eq_map]
  exact congrArg₂ List.append first.readAll.eq.symm second.readAll.eq.symm

theorem few_of_comma (left : Itemized clause a values) (right : Itemized clause b others)
    (few : ∀ ts, Token.tokenize (a ++ "," ++ b) = .ok ts → ts.length ≤ handles) :
    (∀ ts, Token.tokenize a = .ok ts → ts.length ≤ handles) ∧
      ∀ us, Token.tokenize b = .ok us → us.length ≤ handles := by
  obtain ⟨ts, _, lexed, -⟩ := left
  obtain ⟨us, _, relexed, -⟩ := right
  have whole := Lexing.tokenize_comma lexed relexed
  have length := Lexing.length_tokenize_comma lexed relexed whole
  have bound := few _ whole
  refine ⟨fun vs again => ?_, fun vs again => ?_⟩
  · cases lexed.symm.trans again
    omega
  · cases relexed.symm.trans again
    omega

theorem repeated (list : clause ≠ .filter) {value : Typing.TreeExpr}
    (item : Itemized clause source [value]) (n : Nat) :
    Itemized clause (repeated source n) (List.replicate (n + 1) value) := by
  induction n with
  | zero => exact item
  | succ n ih => exact item.append list ih

theorem single_letter : Itemized .orderBy "A" [.ordered (.path (some ['A'])) false] :=
  ⟨[⟨.identifier, 0, ['A']⟩, ⟨.eof, 1, []⟩], [.ordered (.path ⟨0, 1⟩) false], by decide +kernel,
    by with_unfolding_all rfl, rfl⟩

section Answers

variable {p : Pool} (reachable : p.Reachable)
  (few : ∀ ts, Token.tokenize source = .ok ts → ts.length ≤ handles) (entity : Entity)
include reachable few

theorem items? (itemized : Itemized clause source values) :
    ∃ ts, Token.tokenize source = .ok ts ∧ p.items? clause source ts = .ok (some values) := by
  obtain ⟨ts, es, lexed, parsed, rfl⟩ := itemized
  have room := (Parser.clause_size_le_length lexed parsed).trans (few ts lexed)
  exact ⟨ts, lexed, Pool.items?_covered reachable source parsed room⟩

theorem computeModel (itemized : Itemized .compute source values) :
    (Compiler.computeModel source entity p).1 = Typing.compute entity [] values := by
  obtain ⟨ts, lexed, items⟩ := itemized.items? reachable few
  rw [Compiler.computeModel_seen lexed, items]
  rfl

theorem orderByModel (itemized : Itemized .orderBy source values) :
    (Compiler.orderByModel source entity p).1 = Typing.orderBy entity 1 values := by
  obtain ⟨ts, lexed, items⟩ := itemized.items? reachable few
  rw [Compiler.orderByModel_seen lexed, items]
  rfl

end Answers

section Full

variable (full : values.length = handles)
include full

theorem items?_of_full (list : clause ≠ .filter) (itemized : Itemized clause source values) :
    ∃ ts es, Token.tokenize source = .ok ts ∧ Parser.clause clause ts = .ok es ∧ es.length = handles ∧
      ∀ p : Pool, p.items? clause source ts = .ok (some []) := by
  obtain ⟨ts, es, lexed, parsed, rfl⟩ := itemized
  rw [Expr.readAll_eq_map, List.length_map] at full
  exact ⟨ts, es, lexed, parsed, full, fun p => p.items?_of_full source list parsed (full ▸ Nat.dvd_refl _)⟩

theorem computeModel_of_full (itemized : Itemized .compute source values) (entity : Entity) (p : Pool) :
    (Compiler.computeModel source entity p).1 = .ok [] := by
  obtain ⟨ts, es, lexed, -, -, items⟩ := itemized.items?_of_full full (by decide)
  rw [Compiler.computeModel_seen lexed, items]
  rfl

theorem orderByModel_of_full (itemized : Itemized .orderBy source values) (entity : Entity) (p : Pool) :
    (Compiler.orderByModel source entity p).1 = .ok [] := by
  obtain ⟨ts, es, lexed, -, -, items⟩ := itemized.items?_of_full full (by decide)
  rw [Compiler.orderByModel_seen lexed, items]
  rfl

end Full

theorem of_computeModel {p : Pool} {entity : Entity} {made : List ComputeItem}
    (done : (Compiler.computeModel source entity p).1 = .ok made) :
    ∃ values, Itemized .compute source values := by
  obtain ⟨ts, lexed, t, root, kept, -⟩ := Compiler.model_eq_ok.1 done
  rw [Pool.parseCompute_eq] at kept
  obtain ⟨es, parsed, -⟩ := Pool.keep_eq_ok.1 kept
  exact ⟨_, ts, es, lexed, parsed, rfl⟩

theorem of_orderByModel {p : Pool} {entity : Entity} {made : List OrderItem}
    (done : (Compiler.orderByModel source entity p).1 = .ok made) :
    ∃ values, Itemized .orderBy source values := by
  obtain ⟨ts, lexed, t, root, kept, -⟩ := Compiler.model_eq_ok.1 done
  rw [Pool.parseOrderBy_eq] at kept
  obtain ⟨es, parsed, -⟩ := Pool.keep_eq_ok.1 kept
  exact ⟨_, ts, es, lexed, parsed, rfl⟩

end Itemized

end ClauseSql
