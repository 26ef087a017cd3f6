import ClauseSql.Proofs.Erasure
import ClauseSql.Proofs.Lexing
import ClauseSql.Proofs.Stages
import ClauseSql.Proofs.StoredLikeness
import ClauseSql.Proofs.TypingRules
import Mathlib.Data.List.Forall2

/-! The SQL text does not depend on the values that a user writes. Two clauses that differ in nothing
but these are read, stored, typed and generated in step; where both come to SQL, the texts are the
same. -/
namespace ClauseSql

open Outcome Typing

/-- The kinds of literals that hold a user's value. The words `true`, `false` and `null` are part of
the clause itself. -/
def LiteralKind.isUserValue : LiteralKind → Bool
  | .string => true
  | .number => true
  | .date => true
  | .dateTime => true
  | .boolean => false
  | .null => false

def exceptUserValues : TextLikeness where
  literal kind a b := kind.isUserValue = true ∨ a = b
  name a b := a = b
  function a b := a = b

theorem Value.blank_eq_of_type {v w : Value} (same : v.type = w.type) : v.blank = w.blank := by
  cases v <;> cases w <;> first | rfl | cases same

section Typed

variable {entity : Entity}

mutual
theorem operand_alike {a b : TreeExpr} (alike : Expr.Alike exceptUserValues a b) {v w : Operand}
    {s t : ValueType} (left : operand entity a = .ok (v, s)) (right : operand entity b = .ok (w, t)) :
    v.blank = w.blank ∧ s = t := by
  match alike with
  | .literal _ =>
    obtain ⟨cs, _, value, read, equal⟩ := operand_literal.1 left
    obtain ⟨ds, _, other, reread, same⟩ := operand_literal.1 right
    cases equal
    cases same
    have type : value.type = other.type := by rw [literalValue_type read, literalValue_type reread]
    exact ⟨congrArg Operand.literal (Value.blank_eq_of_type type), type⟩
  | .path text =>
    rw [show _ = _ from text, right] at left
    cases left
    exact ⟨rfl, rfl⟩
  | @Expr.Alike.binary _ _ _ _ _ op _ _ _ _ first second =>
    cases op with
    | arithmetic op =>
      obtain ⟨a, _, left₁, b, _, left₂, _, _, equal⟩ := operand_arithmetic.1 left
      obtain ⟨c, _, right₁, d, _, right₂, _, _, same⟩ := operand_arithmetic.1 right
      cases equal
      cases same
      have ih := operand_alike first left₁ right₁
      have jh := operand_alike second left₂ right₂
      exact ⟨congrArg₂ (Operand.arithmetic op) ih.1 jh.1, rfl⟩
    | comparison op => cases isValue_of_operand left
    | connective op => cases isValue_of_operand left
  | .call name args =>
    obtain ⟨cs, rfl, function, known, _, _, values, typed, equal⟩ := operand_call.1 left
    obtain ⟨ds, rfl, other, known', _, _, others, typed', same⟩ := operand_call.1 right
    obtain rfl : cs = ds := Option.some.inj name
    rw [known] at known'
    obtain rfl := Option.some.inj known'
    cases equal
    cases same
    exact ⟨congrArg (Operand.call function) (arguments_alike args typed typed'), rfl⟩
  | .not _ => cases isValue_of_operand left
  | .named _ _ => cases isValue_of_operand left
  | .ordered _ => cases isValue_of_operand left
  | .broken => cases isValue_of_operand left
  | .brokenCall _ => cases isValue_of_operand left
theorem arguments_alike {as bs : List TreeExpr} (alike : Expr.AlikeAll exceptUserValues as bs)
    {function : Function} {index : Nat} {vs ws : List Operand}
    (left : arguments entity function index as = .ok vs)
    (right : arguments entity function index bs = .ok ws) :
    Operand.blankAll vs = Operand.blankAll ws := by
  match alike with
  | .nil =>
    cases left
    cases right
    rfl
  | .cons first others =>
    obtain ⟨v, _, typed, _, vs, more, rfl⟩ := arguments_cons.1 left
    obtain ⟨w, _, typed', _, ws, more', rfl⟩ := arguments_cons.1 right
    have ih := operand_alike first typed typed'
    exact congrArg₂ List.cons ih.1 (arguments_alike others more more')
end

theorem stringMatch_alike {as bs : List TreeExpr} (alike : Expr.AlikeAll exceptUserValues as bs)
    {function : Function} {kind : StringMatch} {f g : Filter}
    (left : stringMatch entity function kind as = .ok f)
    (right : stringMatch entity function kind bs = .ok g) : f.blank = g.blank := by
  obtain ⟨target, _, _, value, rfl, typed, _, rfl⟩ := stringMatch_eq_ok.1 left
  obtain ⟨other, _, _, found, rfl, typed', _, rfl⟩ := stringMatch_eq_ok.1 right
  cases alike with
  | cons first _ =>
    have ih := operand_alike first typed typed'
    simp only [Filter.blank, ih.1]

theorem matchCall_alike {a b : TreeExpr} (alike : Expr.Alike exceptUserValues a b)
    {function other : Function} {kind form : StringMatch} {as bs : List TreeExpr}
    (left : MatchCall a function kind as) (right : MatchCall b other form bs) :
    function = other ∧ kind = form ∧ Expr.AlikeAll exceptUserValues as bs := by
  obtain ⟨name, rfl, known, isMatch⟩ := left
  obtain ⟨text, rfl, known', isMatch'⟩ := right
  cases alike with
  | call same args =>
    obtain rfl : name = text := Option.some.inj same
    rw [known] at known'
    obtain rfl := Option.some.inj known'
    rw [isMatch] at isMatch'
    exact ⟨rfl, Option.some.inj isMatch', args⟩

theorem matchCall_iff {a b : TreeExpr} (alike : Expr.Alike exceptUserValues a b)
    {function : Function} {kind : StringMatch} :
    (∃ args, MatchCall a function kind args) ↔ ∃ args, MatchCall b function kind args := by
  cases alike with
  | @call s t as bs name args =>
    obtain rfl : s = t := name
    simp [MatchCall]
  | _ => simp [MatchCall]

theorem fold?_alike {a b c d : TreeExpr} (call : Expr.Alike exceptUserValues a b)
    (other : Expr.Alike exceptUserValues c d) {op : Comparison} {f g : Filter}
    (left : fold? entity a op c = .ok (some f)) (right : fold? entity b op d = .ok (some g)) :
    f.blank = g.blank := by
  obtain ⟨function, kind, as, cs, negated, matched, called, rfl, sense, typed, rfl⟩ := fold?_some.1 left
  obtain ⟨_, _, bs, ds, turned, found, called', rfl, sense', typed', rfl⟩ := fold?_some.1 right
  obtain ⟨rfl, rfl, args⟩ := matchCall_alike call called called'
  have same := stringMatch_alike args typed typed'
  cases other with
  | literal text =>
    obtain rfl : cs = ds := by simpa [exceptUserValues, LiteralKind.isUserValue] using text
    rw [sense] at sense'
    obtain rfl := Except.ok.inj sense'
    cases negated
    · exact same
    · exact congrArg Filter.not same

theorem coerce_blank {value found : Operand} {type other given : ValueType}
    (done : coerce value type other = .ok (found, given)) : found.blank = value.blank := by
  rcases coerce_cases done with ⟨rfl, _, _⟩ | ⟨text, v, rfl, rfl, _, temporal⟩
  · rfl
  · cases v <;> first | rfl | cases temporal

theorem not_operand_of_fold {a b c : TreeExpr} (alike : Expr.Alike exceptUserValues a b)
    {op : Comparison} {f : Filter} (folded : fold? entity a op c = .ok (some f))
    {result : Operand × ValueType} : operand entity b ≠ .ok result := by
  intro typed
  obtain ⟨_, _, args, _, _, _, called, _⟩ := fold?_some.1 folded
  obtain ⟨_, other⟩ := (matchCall_iff alike).1 ⟨args, called⟩
  exact not_matchCall_of_operand typed other

theorem not_fold_of_operand {a b c : TreeExpr} (alike : Expr.Alike exceptUserValues a b)
    {result : Operand × ValueType} (typed : operand entity a = .ok result) {op : Comparison}
    {f : Filter} : fold? entity b op c ≠ .ok (some f) := by
  intro folded
  obtain ⟨_, _, args, _, _, _, called, _⟩ := fold?_some.1 folded
  obtain ⟨_, other⟩ := (matchCall_iff alike).2 ⟨args, called⟩
  exact not_matchCall_of_operand typed other

theorem not_fold_crossed {a b c d : TreeExpr} (alike : Expr.Alike exceptUserValues c d)
    {op : Comparison} {f g : Filter} (folded : fold? entity a op c = .ok (some f)) :
    fold? entity d op b ≠ .ok (some g) := by
  intro crossed
  obtain ⟨_, _, _, _, _, _, _, rfl, _⟩ := fold?_some.1 folded
  obtain ⟨_, _, args, _, _, _, called, _⟩ := fold?_some.1 crossed
  obtain ⟨_, _, literal, _⟩ := (matchCall_iff alike).2 ⟨args, called⟩
  cases literal

theorem comparison_alike {a b c d : TreeExpr} (first : Expr.Alike exceptUserValues a b)
    (second : Expr.Alike exceptUserValues c d) {op : Comparison} {f g : Filter}
    (left : comparison entity op a c = .ok f) (right : comparison entity op b d = .ok g) :
    f.blank = g.blank := by
  rcases comparison_eq_ok.1 left with folded | folded | values
  · rcases comparison_eq_ok.1 right with other | other | values
    · exact fold?_alike first second folded other
    · exact absurd other (not_fold_crossed second folded)
    · obtain ⟨_, _, _, _, typed, _⟩ := values
      exact absurd typed (not_operand_of_fold first folded)
  · rcases comparison_eq_ok.1 right with other | other | values
    · exact absurd other (not_fold_crossed first folded)
    · exact fold?_alike second first folded other
    · obtain ⟨_, _, _, _, _, typed, _⟩ := values
      exact absurd typed (not_operand_of_fold second folded)
  · obtain ⟨_, _, _, _, typed, typed', _, _, _, coerced, _, _, coerced', _, rfl⟩ := values
    rcases comparison_eq_ok.1 right with other | other | values
    · exact absurd other (not_fold_of_operand first typed)
    · exact absurd other (not_fold_of_operand second typed')
    · obtain ⟨_, _, _, _, found, found', _, _, _, turned, _, _, turned', _, rfl⟩ := values
      have ih := operand_alike first typed found
      have jh := operand_alike second typed' found'
      simp only [Filter.blank, coerce_blank coerced, coerce_blank coerced', coerce_blank turned,
        coerce_blank turned', ih.1, jh.1]

theorem filter_alike {a b : TreeExpr} (alike : Expr.Alike exceptUserValues a b) {f g : Filter}
    (left : Typing.filter entity a = .ok f) (right : Typing.filter entity b = .ok g) :
    f.blank = g.blank := by
  match alike with
  | @Expr.Alike.literal _ _ _ _ _ kind _ _ text =>
    cases kind with
    | boolean =>
      obtain ⟨cs, rfl, rfl⟩ := filter_boolean.1 left
      obtain ⟨ds, rfl, rfl⟩ := filter_boolean.1 right
      obtain rfl : cs = ds := by simpa [exceptUserValues, LiteralKind.isUserValue] using text
      rfl
    | _ => cases mayBeCondition_of_filter left
  | .path text =>
    rw [show _ = _ from text, right] at left
    exact congrArg Filter.blank (Except.ok.inj left).symm
  | .not inner =>
    obtain ⟨f, typed, rfl⟩ := filter_not.1 left
    obtain ⟨g, typed', rfl⟩ := filter_not.1 right
    exact congrArg Filter.not (filter_alike inner typed typed')
  | @Expr.Alike.binary _ _ _ _ _ op _ _ _ _ first second =>
    cases op with
    | connective op =>
      obtain ⟨f, typed₁, g, typed₂, rfl⟩ := filter_connective.1 left
      obtain ⟨f', typed₃, g', typed₄, rfl⟩ := filter_connective.1 right
      have ih := filter_alike first typed₁ typed₃
      have jh := filter_alike second typed₂ typed₄
      exact congrArg₂ (Filter.logical op.operator) ih jh
    | comparison op => exact comparison_alike first second left right
    | arithmetic op => cases mayBeCondition_of_filter left
  | .call name args =>
    obtain ⟨function, kind, called, typed⟩ := filter_call.1 left
    obtain ⟨_, _, called', typed'⟩ := filter_call.1 right
    obtain ⟨rfl, rfl, _⟩ := matchCall_alike (.call name args) called called'
    exact stringMatch_alike args typed typed'
  | .named _ _ => cases mayBeCondition_of_filter left
  | .ordered _ => cases mayBeCondition_of_filter left
  | .broken => cases mayBeCondition_of_filter left
  | .brokenCall _ => cases mayBeCondition_of_filter left

theorem compute_alike {as bs : List TreeExpr} (alike : Expr.AlikeAll exceptUserValues as bs)
    {done ready items others : List ComputeItem}
    (same : done.map ComputeItem.blank = ready.map ComputeItem.blank)
    (left : Typing.compute entity done as = .ok items)
    (right : Typing.compute entity ready bs = .ok others) :
    items.map ComputeItem.blank = others.map ComputeItem.blank := by
  induction as generalizing bs done ready with
  | nil =>
    cases alike
    cases left
    cases right
    exact same
  | cons _ _ ih =>
    cases alike with
    | cons first more =>
      obtain ⟨value, text, rfl⟩ := named_of_compute left
      obtain ⟨other, word, rfl⟩ := named_of_compute right
      obtain ⟨cs, rfl, _, _, a, s, typed, rest⟩ := compute_named.1 left
      obtain ⟨ds, rfl, _, _, b, t, typed', rest'⟩ := compute_named.1 right
      cases first with
      | named inner name =>
        obtain rfl : cs = ds := Option.some.inj name
        have value := operand_alike inner typed typed'
        refine ih more ?_ rest rest'
        rw [List.map_append, List.map_append, same]
        simp only [List.map_cons, List.map_nil, ComputeItem.blank, value.1, value.2]

theorem orderBy_alike {as bs : List TreeExpr} (alike : Expr.AlikeAll exceptUserValues as bs)
    {number : Nat} {items others : List OrderItem}
    (left : Typing.orderBy entity number as = .ok items)
    (right : Typing.orderBy entity number bs = .ok others) :
    items.map OrderItem.blank = others.map OrderItem.blank := by
  induction as generalizing bs number items others with
  | nil =>
    cases alike
    cases left
    cases right
    rfl
  | cons _ _ ih =>
    cases alike with
    | cons first more =>
      obtain ⟨value, descending, rfl⟩ := ordered_of_orderBy left
      obtain ⟨other, downward, rfl⟩ := ordered_of_orderBy right
      obtain ⟨a, _, typed, _, items, rest, rfl⟩ := orderBy_ordered.1 left
      obtain ⟨b, _, typed', _, others, rest', rfl⟩ := orderBy_ordered.1 right
      cases first with
      | ordered inner =>
        have value := operand_alike inner typed typed'
        simp only [List.map_cons, OrderItem.blank, value.1, ih more rest rest']

end Typed

def TokenKind.isUserValue : TokenKind → Bool
  | .literal kind => kind.isUserValue
  | _ => false

/-- The same token, unless it is a user's value; then any other value of its kind may take its
place. -/
structure Token.SameButValue (t u : Token) : Prop where
  kind : t.kind = u.kind
  lexeme : t.kind.isUserValue = false → t.lexeme = u.lexeme

instance : DecidableRel Token.SameButValue := fun t u =>
  decidable_of_iff (t.kind = u.kind ∧ (t.kind.isUserValue = false → t.lexeme = u.lexeme))
    ⟨fun same => ⟨same.1, same.2⟩, fun same => ⟨same.kind, same.lexeme⟩⟩

theorem tokens_alike {ts us : List Token} (same : List.Forall₂ Token.SameButValue ts us)
    {o p : Tree.Origin} (left : ∀ t ∈ ts, o.text? t.span = some t.lexeme)
    (right : ∀ u ∈ us, p.text? u.span = some u.lexeme) :
    List.Forall₂ (exceptUserValues.spans o p).Tokens ts us := by
  induction same with
  | nil => exact .nil
  | @cons t u ts us first _ ih =>
    refine .cons ⟨first.kind, ?_, ?_⟩ (ih (fun t mem => left t (List.mem_cons_of_mem _ mem))
      fun u mem => right u (List.mem_cons_of_mem _ mem))
    · have texts : t.kind.isUserValue = false → o.text? t.span = p.text? u.span := by
        intro fixed
        rw [left t List.mem_cons_self, right u List.mem_cons_self, first.lexeme fixed]
      cases kind : t.kind with
      | literal k =>
        rw [kind] at texts
        cases value : k.isUserValue with
        | true => exact .inl value
        | false => exact .inr (texts value)
      | identifier | path | functionName =>
        rw [kind] at texts
        exact texts rfl
      | _ => trivial
    · intro word
      rw [first.lexeme (by rw [word]; rfl)]

/-- The texts for two clauses that differ in a user's values only. All that may differ is the list
of arguments. -/
theorem sql_text_ignores_values {s r : String} {ts us : List Token}
    (lexed : Token.tokenize s = .ok ts) (relexed : Token.tokenize r = .ok us)
    (same : List.Forall₂ Token.SameButValue ts us) {p q : Pool} (reachable : p.Reachable)
    (other : q.Reachable) (dialect : Dialect) (entity : Entity) :
    (∀ x y, (Compiler.filter dialect s entity p).1 = .ok x →
      (Compiler.filter dialect r entity q).1 = .ok y → x.sql = y.sql) ∧
    (∀ x y, (Compiler.compute dialect s entity p).1 = .ok x →
      (Compiler.compute dialect r entity q).1 = .ok y → x.columns = y.columns) ∧
    (∀ x y, (Compiler.orderBy dialect s entity p).1 = .ok x →
      (Compiler.orderBy dialect r entity q).1 = .ok y → x.items = y.items) := by
  have tokens := tokens_alike same (o := ⟨s.toList, p.generation⟩) (p := ⟨r.toList, q.generation⟩)
    (Lexing.tokenize_slice lexed) (Lexing.tokenize_slice relexed)
  refine ⟨fun x y left right => ?_, fun x y left right => ?_, fun x y left right => ?_⟩
  · obtain ⟨_, lexed₁, t, root, parsed, f, typed, made⟩ := Compiler.filter_eq_ok.1 left
    obtain ⟨_, lexed₂, u, top, reparsed, g, retyped, remade⟩ := Compiler.filter_eq_ok.1 right
    cases lexed.symm.trans lexed₁
    cases relexed.symm.trans lexed₂
    have alike := Pool.parseFilter_alike tokens reachable other parsed reparsed
    exact Generation.filterSql_text_eq (filter_alike alike typed retyped) made remade
  · obtain ⟨_, lexed₁, t, list, parsed, items, typed, made⟩ := Compiler.compute_eq_ok.1 left
    obtain ⟨_, lexed₂, u, run, reparsed, others, retyped, remade⟩ := Compiler.compute_eq_ok.1 right
    cases lexed.symm.trans lexed₁
    cases relexed.symm.trans lexed₂
    obtain ⟨es, viewed, typed⟩ := bind_eq_ok.1 typed
    obtain ⟨fs, reviewed, retyped⟩ := bind_eq_ok.1 retyped
    have alike := Pool.parseCompute_alike tokens reachable other parsed reparsed
    rw [readable_eq_ok.1 viewed, readable_eq_ok.1 reviewed] at alike
    cases alike with
    | some alike =>
      exact Generation.computeSql_columns_eq (compute_alike alike rfl typed retyped) made remade
  · obtain ⟨_, lexed₁, t, list, parsed, items, typed, made⟩ := Compiler.orderBy_eq_ok.1 left
    obtain ⟨_, lexed₂, u, run, reparsed, others, retyped, remade⟩ := Compiler.orderBy_eq_ok.1 right
    cases lexed.symm.trans lexed₁
    cases relexed.symm.trans lexed₂
    obtain ⟨es, viewed, typed⟩ := bind_eq_ok.1 typed
    obtain ⟨fs, reviewed, retyped⟩ := bind_eq_ok.1 retyped
    have alike := Pool.parseOrderBy_alike tokens reachable other parsed reparsed
    rw [readable_eq_ok.1 viewed, readable_eq_ok.1 reviewed] at alike
    cases alike with
    | some alike =>
      exact Generation.orderBySql_items_eq (orderBy_alike alike typed retyped) made remade

def contact : Entity :=
  { name := "contact"
    members := [("Born", .primitive ⟨"born", .date, true, none⟩),
      ("Name", .primitive ⟨"name", .text, true, none⟩)] }

theorem sql_text_ignores_names_and_birthdays : ∃ ts us,
    Token.tokenize "startswith(Name,'A') or Born lt '2000-01-01'" = .ok ts ∧
    Token.tokenize "startswith(Name,'O''N') or Born lt '1999-12-31'" = .ok us ∧
    List.Forall₂ Token.SameButValue ts us ∧ Pool.default.Reachable ∧
    ∃ x y,
      (Compiler.filter .sqlite "startswith(Name,'A') or Born lt '2000-01-01'" contact .default).1 =
        .ok x ∧
      (Compiler.filter .sqlite "startswith(Name,'O''N') or Born lt '1999-12-31'" contact .default).1 =
        .ok y ∧
      x.args ≠ y.args ∧ x.sql = y.sql := by
  have lexed : Token.tokenize "startswith(Name,'A') or Born lt '2000-01-01'" = .ok
      [⟨.functionName, 0, "startswith".toList⟩, ⟨.openParen, 10, ['(']⟩,
        ⟨.identifier, 11, "Name".toList⟩, ⟨.comma, 15, [',']⟩, ⟨.literal .string, 16, "'A'".toList⟩,
        ⟨.closeParen, 19, [')']⟩, ⟨.operator (.connective .or), 21, "or".toList⟩,
        ⟨.identifier, 24, "Born".toList⟩, ⟨.operator (.comparison .lt), 29, "lt".toList⟩,
        ⟨.literal .string, 32, "'2000-01-01'".toList⟩, ⟨.eof, 44, []⟩] := by decide +kernel
  have relexed : Token.tokenize "startswith(Name,'O''N') or Born lt '1999-12-31'" = .ok
      [⟨.functionName, 0, "startswith".toList⟩, ⟨.openParen, 10, ['(']⟩,
        ⟨.identifier, 11, "Name".toList⟩, ⟨.comma, 15, [',']⟩,
        ⟨.literal .string, 16, "'O''N'".toList⟩, ⟨.closeParen, 22, [')']⟩,
        ⟨.operator (.connective .or), 24, "or".toList⟩, ⟨.identifier, 27, "Born".toList⟩,
        ⟨.operator (.comparison .lt), 32, "lt".toList⟩,
        ⟨.literal .string, 35, "'1999-12-31'".toList⟩, ⟨.eof, 47, []⟩] := by decide +kernel
  have left : (Compiler.filter .sqlite "startswith(Name,'A') or Born lt '2000-01-01'" contact
      .default).1 = .ok ⟨"(name LIKE ? ESCAPE '\\') OR (born < ?)",
        [.text "A%", .date ⟨2000, 1, 1⟩]⟩ := by decide +kernel
  have right : (Compiler.filter .sqlite "startswith(Name,'O''N') or Born lt '1999-12-31'" contact
      .default).1 = .ok ⟨"(name LIKE ? ESCAPE '\\') OR (born < ?)",
        [.text "O'N%", .date ⟨1999, 12, 31⟩]⟩ := by decide +kernel
  have reachable : Pool.default.Reachable := .ofCapacity Pool.defaultCapacity
  have texts := sql_text_ignores_values lexed relexed (by decide) reachable reachable .sqlite contact
  exact ⟨_, _, lexed, relexed, by decide, reachable, _, _, left, right, by decide,
    texts.1 _ _ left right⟩

end ClauseSql
