import ClauseSql.Proofs.NullArguments

/-! Which numbers are bound. Every number literal of a source becomes an argument of the fragment that is
made from it, once or more, and the arguments that are numbers come from nowhere else. -/
namespace ClauseSql

open Outcome Typing Grammar

def Value.isNumber (value : Value) : Bool := value.type == .number

def Token.isNumber (t : Token) : Bool := t.kind == .literal .number

mutual
def Expr.numbers {σ β : Type} : Expr σ β → List σ
  | .literal kind text => if kind = .number then [text] else []
  | .path _ => []
  | .not operand => operand.numbers
  | .binary _ left right => left.numbers ++ right.numbers
  | .call _ args => Expr.numbersOfAll args
  | .named value _ => value.numbers
  | .ordered value _ => value.numbers
  | .broken _ => []
  | .brokenCall _ _ => []
def Expr.numbersOfAll {σ β : Type} : List (Expr σ β) → List σ
  | [] => []
  | e :: es => e.numbers ++ Expr.numbersOfAll es
end

namespace Expr

mutual
theorem numbers_read (text? : Span → Option (List Char)) (e : ParsedExpr) :
    (e.read text?).numbers = e.numbers.map text? := by
  match e with
  | .literal kind _ =>
    simp only [read, numbers]
    split <;> rfl
  | .path _ => rfl
  | .not operand => simp only [read, numbers, numbers_read text? operand]
  | .binary _ left right =>
    simp only [read, numbers, numbers_read text? left, numbers_read text? right, List.map_append]
  | .call _ args => simp only [read, numbers, numbersOfAll_readAll text? args]
  | .named value _ => simp only [read, numbers, numbers_read text? value]
  | .ordered value _ => simp only [read, numbers, numbers_read text? value]
  | .broken reason => exact nomatch reason
  | .brokenCall _ reason => exact nomatch reason
theorem numbersOfAll_readAll (text? : Span → Option (List Char)) (es : List ParsedExpr) :
    numbersOfAll (readAll text? es) = (numbersOfAll es).map text? := by
  match es with
  | [] => rfl
  | e :: es =>
    simp only [readAll, numbersOfAll, numbers_read text? e, numbersOfAll_readAll text? es, List.map_append]
end

variable {σ β : Type}

theorem numbersOfAll_eq_flatMap (es : List (Expr σ β)) : numbersOfAll es = es.flatMap numbers := by
  induction es with
  | nil => rfl
  | cons e es ih => rw [numbersOfAll, ih, List.flatMap_cons]

theorem Part.numbers_subset {part e : Expr σ β} (inside : part.Part e) : part.numbers ⊆ e.numbers := by
  induction inside with
  | whole => exact List.Subset.refl _
  | not _ ih | named _ ih | ordered _ ih => exact ih
  | left _ ih => exact List.subset_append_of_subset_left _ ih
  | right _ ih => exact List.subset_append_of_subset_right _ ih
  | argument member _ ih =>
    intro text here
    rw [numbers, numbersOfAll_eq_flatMap]
    exact List.mem_flatMap.2 ⟨_, member, ih here⟩

end Expr

namespace Grammar

mutual
theorem Spells.numbers_eq {ts : List Token} {e : ParsedExpr} :
    Spells ts e → e.numbers = (ts.filter Token.isNumber).map Token.span
  | @Spells.literal _ k kind => by cases k <;> simp [Expr.numbers, Token.isNumber, kind]
  | .path kind => by rcases kind with kind | kind <;> simp [Expr.numbers, Token.isNumber, kind]
  | .not kind phrase => by simpa [Expr.numbers, Token.isNumber, kind] using phrase.numbers_eq
  | .binary kind left right => by
    simp [Expr.numbers, Token.isNumber, kind, left.numbers_eq, right.numbers_eq]
  | .call calls opens closes args => by
    simpa [Expr.numbers, Token.isNumber, calls, opens, closes] using args.numbers_eq
  | .group opens closes phrase => by
    simpa [Token.isNumber, opens, closes] using phrase.numbers_eq
theorem SpellsAll.numbers_eq {ts : List Token} {es : List ParsedExpr} :
    SpellsAll ts es → Expr.numbersOfAll es = (ts.filter Token.isNumber).map Token.span
  | .none => rfl
  | .one phrase => by simpa [Expr.numbersOfAll] using phrase.numbers_eq
  | .more comma phrase others => by
    rw [Expr.numbersOfAll, phrase.numbers_eq, others.numbers_eq]
    simp [Token.isNumber, comma]
end

theorem SpellsItem.numbers_eq {clause : Clause} {ts : List Token} {e : ParsedExpr}
    (spelled : SpellsItem clause ts e) : e.numbers = (ts.filter Token.isNumber).map Token.span := by
  cases spelled with
  | condition phrase => exact phrase.numbers_eq
  | ordered phrase => exact phrase.numbers_eq
  | named phrase joins names => simp [Expr.numbers, Token.isNumber, phrase.numbers_eq, joins, names]
  | directed phrase word _ => simp [Expr.numbers, Token.isNumber, phrase.numbers_eq, word]

theorem SpellsItems.numbers_eq {clause : Clause} {ts : List Token} {es : List ParsedExpr}
    (spelled : SpellsItems clause ts es) :
    Expr.numbersOfAll es = (ts.filter Token.isNumber).map Token.span := by
  induction spelled with
  | one item => rw [Expr.numbersOfAll, item.numbers_eq, Expr.numbersOfAll, List.append_nil]
  | more comma item _ ih =>
    rw [Expr.numbersOfAll, item.numbers_eq, ih]
    simp [Token.isNumber, comma]

end Grammar

namespace Typing

def numberOf (text : Option (List Char)) : Option Value := text.bind Value.number?

/-- The values are numbers where the texts are, in the same order. -/
def Numbers (texts : List (Option (List Char))) (values : List Value) : Prop :=
  (values.filter Value.isNumber).map some = texts.map numberOf

theorem Numbers.none : Numbers [] [] := rfl

theorem Numbers.append {texts others : List (Option (List Char))} {values more : List Value}
    (first : Numbers texts values) (second : Numbers others more) :
    Numbers (texts ++ others) (values ++ more) := by
  rw [Numbers, List.filter_append, List.map_append, List.map_append, first, second]

theorem Numbers.congr {texts : List (Option (List Char))} {values others : List Value}
    (numbers : Numbers texts values)
    (same : others.filter Value.isNumber = values.filter Value.isNumber) : Numbers texts others := by
  rw [Numbers, same]
  exact numbers

theorem Numbers.mem_iff {texts : List (Option (List Char))} {values : List Value}
    (numbers : Numbers texts values) {v : Value} (number : v.isNumber = true) :
    v ∈ values ↔ ∃ text ∈ texts, numberOf text = some v := by
  rw [← List.mem_map, ← numbers]
  simp [number]

variable {entity : Entity}

theorem literalValue_numbers {kind : LiteralKind} {text : List Char} {value : Value}
    (read : literalValue kind text = .ok value) :
    Numbers (.literal kind (some text) : TreeExpr).numbers [value] := by
  have type : value.isNumber = (kind.type == .number) := by
    rw [Value.isNumber, literalValue_type read]
  by_cases number : kind = .number
  · subst number
    have found : Value.number? text = some value := by
      simp only [literalValue] at read
      split at read
      · next other found => rw [found, Except.ok.inj read]
      · simp at read
    have kept : value.isNumber = true := type
    simp [Numbers, Expr.numbers, numberOf, found, kept]
  · have dropped : value.isNumber = false := by
      rw [type]
      cases kind with
      | number => exact absurd rfl number
      | _ => rfl
    simp [Numbers, Expr.numbers, number, dropped]

mutual
theorem operand_numbers {e : TreeExpr} {o : Operand} {type : ValueType}
    (typed : operand entity e = .ok (o, type)) : Numbers e.numbers o.literals := by
  match e with
  | .path text =>
    obtain ⟨path, rfl, _, _, equal⟩ := operand_path.1 typed
    cases equal
    exact .none
  | .literal kind text =>
    obtain ⟨cs, rfl, value, read, equal⟩ := operand_literal.1 typed
    cases equal
    exact literalValue_numbers read
  | .call text args =>
    obtain ⟨name, rfl, function, _, _, _, values, checked, equal⟩ := operand_call.1 typed
    cases equal
    exact arguments_numbers checked
  | .binary (.arithmetic op) left right =>
    obtain ⟨a, _, first, b, _, second, _, _, equal⟩ := operand_arithmetic.1 typed
    cases equal
    exact (operand_numbers first).append (operand_numbers second)
  | .binary (.comparison _) _ _ => cases isValue_of_operand typed
  | .binary (.connective _) _ _ => cases isValue_of_operand typed
  | .not _ => cases isValue_of_operand typed
  | .named _ _ => cases isValue_of_operand typed
  | .ordered _ _ => cases isValue_of_operand typed
  | .broken _ => cases isValue_of_operand typed
  | .brokenCall _ _ => cases isValue_of_operand typed
theorem arguments_numbers {function : Function} {index : Nat} {args : List TreeExpr}
    {values : List Operand} (checked : arguments entity function index args = .ok values) :
    Numbers (Expr.numbersOfAll args) (Operand.literalsOfAll values) := by
  match args with
  | [] =>
    cases checked
    exact .none
  | arg :: args =>
    obtain ⟨value, type, typed, _, values, more, rfl⟩ := arguments_cons.1 checked
    exact (operand_numbers typed).append (arguments_numbers more)
end

theorem coerce_numbers {value found : Operand} {type other given : ValueType}
    (done : coerce value type other = .ok (found, given)) :
    found.literals.filter Value.isNumber = value.literals.filter Value.isNumber := by
  obtain ⟨rfl, -⟩ | ⟨text, v, rfl, rfl, -, temporal⟩ := coerce_cases done
  · rfl
  · cases v with
    | date | moment => rfl
    | _ => cases temporal

theorem filter_isNumber_of_isNull {o : Operand} (null : o.isNull = true) :
    o.literals.filter Value.isNumber = [] := by
  unfold Operand.isNull at null
  split at null
  · rfl
  · cases null

theorem comparison_literals_numbers (op : Operator) (a b : Operand) :
    (Filter.comparison op a b).literals.filter Value.isNumber =
      a.literals.filter Value.isNumber ++ b.literals.filter Value.isNumber := by
  rw [Filter.literals]
  split
  · next null => rw [filter_isNumber_of_isNull null, List.nil_append]
  · split
    · next null => rw [filter_isNumber_of_isNull null, List.append_nil]
    · exact List.filter_append _ _

theorem stringMatch_numbers {e : TreeExpr} {function : Function} {kind : StringMatch}
    {args : List TreeExpr} {f : Filter} (called : MatchCall e function kind args)
    (typed : stringMatch entity function kind args = .ok f) : Numbers e.numbers f.literals := by
  obtain ⟨name, rfl, -⟩ := called
  obtain ⟨target, pattern, text, value, rfl, read, -, rfl⟩ := stringMatch_eq_ok.1 typed
  have texts : (.call (some name) [target, .literal .string (some pattern)] : TreeExpr).numbers =
      target.numbers := by
    simp [Expr.numbers, Expr.numbersOfAll]
  have made : (Filter.patternValue kind.operator text).filter Value.isNumber = [] := by
    cases kind <;> rfl
  rw [texts]
  refine (operand_numbers read).congr ?_
  rw [Filter.literals, List.filter_append, made, List.append_nil]

theorem fold?_numbers {call other : TreeExpr} {op : Comparison} {f : Filter}
    (folded : fold? entity call op other = .ok (some f)) :
    Numbers call.numbers f.literals ∧ other.numbers = [] := by
  obtain ⟨function, kind, args, text, negated, matched, called, rfl, -, typed, rfl⟩ :=
    fold?_some.1 folded
  have kept := stringMatch_numbers called typed
  refine ⟨?_, rfl⟩
  cases negated <;> exact kept

theorem comparison_numbers {op : Comparison} {left right : TreeExpr} {f : Filter}
    (typed : comparison entity op left right = .ok f) :
    Numbers (left.numbers ++ right.numbers) f.literals := by
  obtain folded | folded | ⟨a, s, b, t, first, second, -, a', s', before, b', t', behind, -, rfl⟩ :=
    comparison_eq_ok.1 typed
  · obtain ⟨kept, none⟩ := fold?_numbers folded
    rwa [none, List.append_nil]
  · obtain ⟨kept, none⟩ := fold?_numbers folded
    rwa [none, List.nil_append]
  · refine ((operand_numbers first).append (operand_numbers second)).congr ?_
    rw [comparison_literals_numbers, coerce_numbers before, coerce_numbers behind, List.filter_append]

theorem filter_numbers {e : TreeExpr} {f : Filter} (typed : filter entity e = .ok f) :
    Numbers e.numbers f.literals := by
  match e with
  | .binary (.connective op) left right =>
    obtain ⟨a, first, b, second, rfl⟩ := filter_connective.1 typed
    exact (filter_numbers first).append (filter_numbers second)
  | .binary (.comparison op) left right => exact comparison_numbers typed
  | .not inner =>
    obtain ⟨a, read, rfl⟩ := filter_not.1 typed
    have kept : Numbers inner.numbers a.literals := filter_numbers read
    exact kept
  | .call _ _ =>
    obtain ⟨function, kind, called, typed⟩ := filter_call.1 typed
    exact stringMatch_numbers called typed
  | .path _ =>
    obtain ⟨path, rfl, _, _, _, rfl⟩ := filter_path.1 typed
    rfl
  | .literal .boolean _ =>
    obtain ⟨text, rfl, rfl⟩ := filter_boolean.1 typed
    rfl
  | .literal .string _ => cases mayBeCondition_of_filter typed
  | .literal .number _ => cases mayBeCondition_of_filter typed
  | .literal .date _ => cases mayBeCondition_of_filter typed
  | .literal .dateTime _ => cases mayBeCondition_of_filter typed
  | .literal .null _ => cases mayBeCondition_of_filter typed
  | .binary (.arithmetic _) _ _ => cases mayBeCondition_of_filter typed
  | .named _ _ => cases mayBeCondition_of_filter typed
  | .ordered _ _ => cases mayBeCondition_of_filter typed
  | .broken _ => cases mayBeCondition_of_filter typed
  | .brokenCall _ _ => cases mayBeCondition_of_filter typed

theorem Numbers.flatMap {α : Type} {es : List TreeExpr} {items : List α} {value : α → Operand}
    (related : List.Forall₂ (fun e item => Numbers e.numbers (value item).literals) es items) :
    Numbers (Expr.numbersOfAll es) (items.flatMap fun item => (value item).literals) := by
  induction related with
  | nil => exact .none
  | cons first _ ih => exact first.append ih

end Typing

namespace Operand

variable {d : Dialect} {entity : Entity} {v : Value}

mutual
theorem mem_literals_of_mem_bound {o : Operand} (member : v ∈ o.bound d) : v ∈ o.literals := by
  match o with
  | .property _ => cases member
  | .literal _ => exact member
  | .call function args =>
    obtain ⟨i, -, inside⟩ := List.mem_flatMap.1 member
    rw [List.getD_eq_getElem?_getD] at inside
    cases found : (boundLists d args)[i]? with
    | none => simp [found] at inside
    | some values =>
      rw [found] at inside
      exact mem_literals_of_mem_boundLists (List.mem_of_getElem? found) inside
  | .arithmetic _ left right =>
    obtain inside | inside := List.mem_append.1 member
    · exact List.mem_append_left _ (mem_literals_of_mem_bound inside)
    · exact List.mem_append_right _ (mem_literals_of_mem_bound inside)
theorem mem_literals_of_mem_boundLists {os : List Operand} {values : List Value}
    (listed : values ∈ boundLists d os) (member : v ∈ values) : v ∈ literalsOfAll os := by
  match os with
  | [] => cases listed
  | o :: os =>
    obtain rfl | later := List.mem_cons.1 listed
    · exact List.mem_append_left _ (mem_literals_of_mem_bound member)
    · exact List.mem_append_right _ (mem_literals_of_mem_boundLists later member)
end

theorem mem_flatMap_bound_iff {α : Type} {items : List α} {value : α → Operand}
    (typed : ∀ item ∈ items, ∃ type, (value item).HasType entity type)
    (made : ∀ item ∈ items, ∃ e, Generation.operand d entity (value item) = .ok e) :
    v ∈ items.flatMap (fun item => (value item).bound d) ↔
      v ∈ items.flatMap fun item => (value item).literals := by
  simp only [List.mem_flatMap]
  refine exists_congr fun item => and_congr_right fun member => ⟨mem_literals_of_mem_bound, fun inside => ?_⟩
  obtain ⟨type, typed⟩ := typed item member
  obtain ⟨e, made⟩ := made item member
  exact (literals_subperm_bound typed made).subset inside

end Operand

theorem Filter.mem_literals_of_mem_bound {d : Dialect} {v : Value} {f : Filter} (member : v ∈ f.bound d) :
    v ∈ f.literals := by
  have side {o : Operand} (inside : v ∈ o.bound d) := Operand.mem_literals_of_mem_bound inside
  induction f with
  | comparison op left right =>
    rw [bound] at member
    rw [literals]
    split_ifs at member ⊢
    · exact side member
    · exact side member
    · exact List.mem_append.2 ((List.mem_append.1 member).imp side side)
  | stringMatch op target text =>
    exact List.mem_append.2 ((List.mem_append.1 member).imp_left side)
  | logical op left right ih jh => exact List.mem_append.2 ((List.mem_append.1 member).imp ih jh)
  | not inner ih => exact ih member
  | constant => cases member

namespace Generation

variable {d : Dialect} {entity : Entity}

theorem columns_generated {α : Type} {items : List α} {make : α → Except Error Sql} {value : α → Operand}
    (each : ∀ item e, make item = .ok e → ∃ made, operand d entity (value item) = .ok made)
    {texts : List String} {args : List Value}
    (written : columns {} (items.map make) = .ok (texts, args)) :
    ∀ item ∈ items, ∃ made, operand d entity (value item) = .ok made := by
  obtain ⟨made, related, -⟩ := columns_items written
  intro item member
  obtain ⟨e, -, generated, -⟩ := exists_of_forall₂ related.flip item member
  exact each item e generated

theorem computeSql_generated {items : List ComputeItem} {out : ComputeSql}
    (made : computeSql d entity items = .ok out) :
    ∀ item ∈ items, ∃ e, operand d entity item.operand = .ok e := by
  obtain ⟨⟨texts, args⟩, written, -⟩ := bind_eq_ok.1 made
  refine columns_generated (fun item e computed => ?_) written
  obtain ⟨value, generated, -⟩ := bind_eq_ok.1 computed
  exact ⟨value, generated⟩

theorem orderBySql_generated {items : List OrderItem} {out : OrderBySql}
    (made : orderBySql d entity items = .ok out) :
    ∀ item ∈ items, ∃ e, operand d entity item.operand = .ok e := by
  obtain ⟨⟨texts, args⟩, written, -⟩ := bind_eq_ok.1 made
  refine columns_generated (fun item e sorted => ?_) written
  obtain ⟨value, generated, -⟩ := bind_eq_ok.1 sorted
  exact ⟨value, generated⟩

end Generation

namespace Compiler

def arguments (clause : Clause) (d : Dialect) (source : String) (entity : Entity) (p : Pool) :
    Except Failure (List Value) :=
  match clause with
  | .filter => (filter d source entity p).1.map FilterSql.args
  | .compute => (compute d source entity p).1.map ComputeSql.args
  | .orderBy => (orderBy d source entity p).1.map OrderBySql.args

variable {clause : Clause} {d : Dialect} {source : String} {entity : Entity} {p : Pool} {args : List Value}

theorem arguments_items (done : arguments clause d source entity p = .ok args) :
    ∃ ts items values, Token.tokenize source = .ok ts ∧ p.items? clause source ts = .ok (some items) ∧
      (∀ v, v ∈ args ↔ v ∈ values) ∧ Numbers (Expr.numbersOfAll items) values := by
  cases clause with
  | filter =>
    obtain ⟨out, made, rfl⟩ := map_eq_ok.1 done
    obtain ⟨f, modelled, generated⟩ := generate_eq_ok.1 made
    obtain ⟨ts, e, lexed, seen, typed⟩ := filterModel_items modelled
    refine ⟨ts, [e], f.literals, lexed, seen, fun v => ?_, ?_⟩
    · obtain ⟨made, generation, -, -⟩ := Generation.filterSql_eq_ok.1 generated
      rw [Generation.filterSql_args generated]
      exact ⟨Filter.mem_literals_of_mem_bound,
        fun member => (Filter.literals_subperm_bound (filter_sound typed).2 generation).subset member⟩
    · simpa [Expr.numbersOfAll] using filter_numbers typed
  | compute =>
    obtain ⟨out, made, rfl⟩ := map_eq_ok.1 done
    obtain ⟨items, modelled, generated⟩ := generate_eq_ok.1 made
    obtain ⟨ts, es, lexed, seen, typed⟩ := computeModel_items modelled
    obtain ⟨new, rfl, models⟩ := compute_models typed
    have sound := (compute_sound .nil typed).2.typed
    refine ⟨ts, es, items.flatMap fun item => item.operand.literals, lexed, seen, fun v => ?_,
      Numbers.flatMap (models.imp ?_)⟩
    · rw [Generation.computeSql_args generated]
      exact Operand.mem_flatMap_bound_iff (fun item member => ⟨_, sound item member⟩)
        (Generation.computeSql_generated generated)
    · rintro e item ⟨value, name, rfl, -, typed⟩
      have kept : Numbers value.numbers item.operand.literals := operand_numbers typed
      exact kept
  | orderBy =>
    obtain ⟨out, made, rfl⟩ := map_eq_ok.1 done
    obtain ⟨items, modelled, generated⟩ := generate_eq_ok.1 made
    obtain ⟨ts, es, lexed, seen, typed⟩ := orderByModel_items modelled
    have sound := (orderBy_sound typed).2
    refine ⟨ts, es, items.flatMap fun item => item.operand.literals, lexed, seen, fun v => ?_,
      Numbers.flatMap ((orderBy_models typed).imp ?_)⟩
    · rw [Generation.orderBySql_args generated]
      exact Operand.mem_flatMap_bound_iff (fun item member => (sound item member).1)
        (Generation.orderBySql_generated generated)
    · rintro e item ⟨value, type, rfl, typed⟩
      have kept : Numbers value.numbers item.operand.literals := operand_numbers typed
      exact kept

section Tokens

variable {ts : List Token} (lexed : Token.tokenize source = .ok ts) (reachable : p.Reachable)
include lexed

theorem covered_span {t : Token} (member : t ∈ ts) : covered source.toList t.span = some t.lexeme :=
  Lexing.tokenize_slice lexed t member

include reachable

theorem numbers_of_items {items : List TreeExpr} (seen : p.items? clause source ts = .ok (some items))
    {text : Option (List Char)} (member : text ∈ Expr.numbersOfAll items) :
    ∃ t ∈ ts, t.isNumber = true ∧ text = some t.lexeme := by
  obtain ⟨es, parsed, fragments⟩ := Pool.items?_fragments reachable source seen
  obtain ⟨body, last, rfl, -, spelled⟩ := Grammar.clause_spelling lexed parsed
  rw [Expr.numbersOfAll_eq_flatMap] at member
  obtain ⟨item, listed, inside⟩ := List.mem_flatMap.1 member
  obtain rfl | ⟨e, known, part, within, rfl⟩ := fragments item listed
  · cases inside
  · rw [Expr.numbers_read] at inside
    obtain ⟨span, here, rfl⟩ := List.mem_map.1 inside
    have written : span ∈ Expr.numbersOfAll es := by
      rw [Expr.numbersOfAll_eq_flatMap]
      exact List.mem_flatMap.2 ⟨e, known, within.numbers_subset here⟩
    rw [spelled.numbers_eq] at written
    obtain ⟨t, found, rfl⟩ := List.mem_map.1 written
    obtain ⟨found, number⟩ := List.mem_filter.1 found
    have among : t ∈ body ++ [last] := List.mem_append_left _ found
    exact ⟨t, among, number, covered_span lexed among⟩

theorem numbers_to_items {items : List TreeExpr} (few : ts.length ≤ handles)
    (seen : p.items? clause source ts = .ok (some items)) {t : Token} (member : t ∈ ts)
    (number : t.isNumber = true) : some t.lexeme ∈ Expr.numbersOfAll items := by
  obtain ⟨body, last, es, rfl, ends, spelled, rfl⟩ :=
    Pool.items?_spelled reachable source lexed few seen
  have inside : t ∈ body := by
    refine (List.mem_append.1 member).resolve_right fun isLast => ?_
    rw [List.mem_singleton.1 isLast, Token.isNumber, ends] at number
    cases number
  rw [Expr.numbersOfAll_readAll, spelled.numbers_eq, ← covered_span lexed member]
  exact List.mem_map_of_mem (List.mem_map_of_mem (List.mem_filter.2 ⟨inside, number⟩))

theorem number_mem_arguments (done : arguments clause d source entity p = .ok args) {v : Value}
    (number : v.isNumber = true) :
    (v ∈ args → ∃ t ∈ ts, t.isNumber = true ∧ Value.number? t.lexeme = some v) ∧
    (ts.length ≤ handles →
      ∀ t ∈ ts, t.isNumber = true → Value.number? t.lexeme = some v → v ∈ args) := by
  obtain ⟨_, items, values, relexed, seen, same, numbers⟩ := arguments_items done
  cases lexed.symm.trans relexed
  rw [same, numbers.mem_iff number]
  constructor
  · rintro ⟨text, member, value⟩
    obtain ⟨t, among, isNumber, rfl⟩ := numbers_of_items lexed reachable seen member
    exact ⟨t, among, isNumber, value⟩
  · intro few t member isNumber value
    exact ⟨_, numbers_to_items lexed reachable few seen member isNumber, value⟩

end Tokens

end Compiler

end ClauseSql
