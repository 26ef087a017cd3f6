import ClauseSql.Proofs.Isolation
import ClauseSql.Proofs.ParserFaults
import ClauseSql.Proofs.Refusals
import ClauseSql.Proofs.Tiling

/-! Malformed clauses. A clause is called malformed if and only if it has no tokens or its parser refuses
them: whatever comes later has other errors. The error stands between two characters of the source, and an
error of the parser stands at the beginning of the token that it is about. -/
namespace ClauseSql

open Outcome

namespace Lexing

open Token Text

theorem nameKind_calls {name rest : List Char} (calls : nameKind name rest = .functionName) :
    startsWith (· == '(') rest = true := by
  unfold nameKind at calls
  split at calls
  · cases calls
  · split at calls
    · next kind found =>
      subst calls
      unfold Keyword.find? at found
      split at found
      · obtain ⟨entry, listed, kind⟩ := Option.map_eq_some_iff.mp found
        have member := List.mem_map_of_mem (f := Prod.snd) (List.mem_of_find?_eq_some listed)
        rw [kind] at member
        exact absurd member (by decide)
      · cases found
    · split at calls
      · next opens => exact opens
      · cases calls

theorem Found.calls {c : Char} {cs tail rest : List Char} {kind : TokenKind}
    (found : Found c cs kind tail) (split : cs = tail ++ rest) (calls : kind = .functionName) :
    ∃ more, rest = '(' :: more := by
  cases found with
  | name letter =>
    have opens := nameKind_calls calls
    have behind := congrArg (List.drop (nameRest cs).length) split
    rw [List.drop_left] at behind
    rw [behind] at opens
    cases rest with
    | nil => cases opens
    | cons d more => exact ⟨more, by simpa [startsWith] using opens⟩
  | _ => cases calls

theorem Found.openParen_of_eq {c : Char} {cs tail : List Char} {kind : TokenKind}
    (found : Found c cs kind tail) (paren : c = '(') : kind = .openParen := by
  cases found with
  | openParen => rfl
  | signed sign => rcases sign with rfl | rfl <;> cases paren
  | signedFraction sign => rcases sign with rfl | rfl <;> cases paren
  | dated digit => exact absurd (paren ▸ digit) (by decide)
  | number digit => exact absurd (paren ▸ digit) (by decide)
  | name letter => exact absurd (paren ▸ letter) (by decide)
  | _ => cases paren

theorem Layout.opens {position : Nat} {cs more : List Char} {ts : List Token}
    (layout : Layout position cs ts) (begins : cs = '(' :: more) :
    ∀ t ∈ ts.head?, t.kind = .openParen := by
  have visible : ¬ isBlank '(' := by decide
  cases layout with
  | finish blank => exact absurd (blank '(' (begins ▸ List.mem_cons_self)) visible
  | @token _ blanks t c tail rest ts blank _ start lexeme found more =>
    simp only [List.head?_cons, Option.mem_some_iff, forall_eq']
    cases blanks with
    | nil =>
      rw [List.nil_append, lexeme, List.cons_append] at begins
      exact found.openParen_of_eq (List.cons.inj begins).1
    | cons b blanks =>
      rw [List.cons_append] at begins
      exact absurd ((List.cons.inj begins).1 ▸ blank b List.mem_cons_self) visible

theorem Layout.calls {position : Nat} {cs : List Char} {ts : List Token}
    (layout : Layout position cs ts) :
    ts.IsChain fun t u => t.kind = .functionName → u.kind = .openParen := by
  induction layout with
  | finish blank => exact .singleton _
  | @token position blanks t c tail rest ts blank visible start lexeme found more ih =>
    refine List.isChain_cons.2 ⟨fun u next calls => ?_, ih⟩
    obtain ⟨cs, opens⟩ := found.calls rfl calls
    exact more.opens opens u next

theorem tokenize_stream {source : String} {ts : List Token} (lexed : tokenize source = .ok ts) :
    Parser.Stream ts where
  ending := tokenize_endMarked lexed
  calls := (tokenize_layout lexed).calls

end Lexing

/-- If the work stops, then not because the clause is malformed. -/
def PastParsing {α : Type} (x : Except Failure α) : Prop :=
  ∀ error, x = .error (.error error) → error.kind ≠ .malformed

namespace PastParsing

variable {α β : Type}

theorem ok (a : α) : PastParsing (.ok a) := by
  intro error failed
  cases failed

theorem broken : PastParsing (.error .broken : Except Failure α) := by
  intro error failed
  cases failed

theorem refuse (cause : Invalid) : PastParsing (Typing.refuse cause : Except Failure α) := by
  intro error failed
  cases failed
  exact nofun

theorem readable (x : Option α) : PastParsing (Typing.readable x) := by
  cases x with
  | none => exact broken
  | some a => exact ok a

theorem bind {x : Except Failure α} {f : α → Except Failure β} (first : PastParsing x)
    (next : ∀ a, x = .ok a → PastParsing (f a)) : PastParsing (x >>= f) := by
  cases x with
  | error failure =>
    intro error failed
    cases failed
    exact first error rfl
  | ok a => exact next a rfl

theorem map {x : Except Failure α} (first : PastParsing x) (f : α → β) : PastParsing (x.map f) := by
  intro error failed
  exact first error (map_eq_error.1 failed)

theorem ite {c : Prop} [Decidable c] {x y : Except Failure α} (first : PastParsing x)
    (second : PastParsing y) : PastParsing (if c then x else y) := by
  split
  · exact first
  · exact second

end PastParsing

namespace Typing

theorem dateOf_pastParsing (text : List Char) : PastParsing (dateOf text) := by
  unfold dateOf
  split
  · exact .ok _
  · exact .refuse _

theorem literalValue_pastParsing (kind : LiteralKind) (text : List Char) :
    PastParsing (literalValue kind text) := by
  cases kind with
  | null | boolean => exact .ok _
  | string => exact (PastParsing.readable _).map _
  | date => exact (dateOf_pastParsing text).map _
  | number | dateTime =>
    unfold literalValue
    dsimp only
    split
    · exact .ok _
    · exact .refuse _

theorem functionNamed_pastParsing (name : List Char) : PastParsing (functionNamed name) := by
  unfold functionNamed
  split
  · exact .ok _
  · exact .refuse _

theorem located_pastParsing (entity : Entity) (path : List Char) : PastParsing (located entity path) := by
  unfold located
  split
  · exact .ok _
  · exact .refuse _

theorem printed_refused {α : Type} (e : TreeExpr) (cause : String → Invalid) :
    PastParsing (printed e >>= fun text => (refuse (cause text) : Result α)) :=
  ((PastParsing.readable _).map _).bind fun _ _ => .refuse _

variable {entity : Entity}

mutual
theorem operand_pastParsing (e : TreeExpr) : PastParsing (operand entity e) := by
  cases e with
  | path text =>
    exact (PastParsing.readable text).bind fun path _ =>
      (located_pastParsing entity path).bind fun _ _ => .ok _
  | literal kind text =>
    exact (PastParsing.readable text).bind fun text _ =>
      (literalValue_pastParsing kind text).bind fun _ _ => .ok _
  | call name args =>
    refine (PastParsing.readable name).bind fun name _ =>
      (functionNamed_pastParsing name).bind fun function _ => ?_
    refine .ite (.refuse _) (.ite ?_ (.refuse _))
    exact (arguments_pastParsing function 0 args).bind fun _ _ => .ok _
  | brokenCall name _ =>
    refine (PastParsing.readable name).bind fun name _ =>
      (functionNamed_pastParsing name).bind fun function _ => ?_
    exact .ite (.refuse _) .broken
  | binary op left right =>
    cases op with
    | arithmetic op =>
      refine (operand_pastParsing left).bind fun _ _ => (operand_pastParsing right).bind fun _ _ => ?_
      exact .ite (.refuse _) (.ite (.refuse _) (.ok _))
    | _ => exact printed_refused _ _
  | not inner => exact printed_refused _ _
  | named => exact .refuse _
  | ordered => exact .refuse _
  | broken => exact .broken
theorem arguments_pastParsing (function : Function) (index : Nat) (args : List TreeExpr) :
    PastParsing (arguments entity function index args) := by
  cases args with
  | nil => exact .ok _
  | cons arg args =>
    have rest (value : Operand) : PastParsing (do
        let values ← arguments entity function (index + 1) args
        return value :: values) := (arguments_pastParsing function (index + 1) args).bind fun _ _ => .ok _
    rw [arguments]
    refine (operand_pastParsing arg).bind fun typed _ => ?_
    obtain ⟨value, type⟩ := typed
    dsimp only
    split
    · exact .ite (rest value) (.refuse _)
    · exact rest value
end

theorem stringMatch_pastParsing (function : Function) (kind : StringMatch) (args : List TreeExpr) :
    PastParsing (stringMatch entity function kind args) := by
  unfold stringMatch
  split
  · refine (operand_pastParsing _).bind fun _ _ => .ite (.refuse _) ?_
    split
    · exact (PastParsing.readable _).bind fun _ _ => (PastParsing.readable _).bind fun _ _ => .ok _
    · exact .broken
    · exact .refuse _
  · exact .refuse _

theorem calledMatch?_pastParsing (e : TreeExpr) : PastParsing (calledMatch? e) := by
  cases e with
  | call name args => exact (PastParsing.readable name).bind fun _ _ => .ok _
  | brokenCall name => exact (PastParsing.readable name).bind fun _ _ => .ok _
  | broken => exact .broken
  | _ => exact .ok _

theorem negation_pastParsing (function : Function) (op : Comparison) (expected : Bool) :
    PastParsing (negation function op expected) := by
  unfold negation
  split
  · exact .ok _
  · exact .ok _
  · exact .refuse _

theorem fold?_pastParsing (call : TreeExpr) (op : Comparison) (other : TreeExpr) :
    PastParsing (fold? entity call op other) := by
  refine (calledMatch?_pastParsing call).bind fun found _ => ?_
  cases found with
  | none => exact .ok _
  | some found =>
    obtain ⟨function, kind, args⟩ := found
    have rest (expected : Bool) : PastParsing (do
        let negated ← negation function op expected
        let args ← readable args
        let matched ← stringMatch entity function kind args
        return some (if negated then .not matched else matched)) :=
      (negation_pastParsing function op expected).bind fun _ _ =>
        (PastParsing.readable args).bind fun args _ =>
          (stringMatch_pastParsing function kind args).bind fun _ _ => .ok _
    dsimp only
    split
    · exact ((PastParsing.readable _).map _).bind fun expected _ => rest expected
    · exact PastParsing.broken.bind fun expected _ => rest expected
    · exact (PastParsing.refuse _).bind fun expected _ => rest expected

theorem coerce_pastParsing (value : Operand) (type other : ValueType) :
    PastParsing (coerce value type other) := by
  unfold coerce
  split
  · split
    · exact (dateOf_pastParsing _).bind fun _ _ => .ok _
    · split
      · exact .ok _
      · exact (dateOf_pastParsing _).bind fun _ _ => .ok _
    · exact .ok _
  · exact .ok _

theorem comparison_pastParsing (op : Comparison) (left right : TreeExpr) :
    PastParsing (comparison entity op left right) := by
  unfold comparison
  refine (fold?_pastParsing left op right).bind fun folded _ => ?_
  split
  · exact .ok _
  · refine (fold?_pastParsing right op left).bind fun folded _ => ?_
    split
    · exact .ok _
    · refine (operand_pastParsing left).bind fun _ _ => (operand_pastParsing right).bind fun _ _ => ?_
      refine .ite (.refuse _) ?_
      refine (coerce_pastParsing _ _ _).bind fun _ _ => (coerce_pastParsing _ _ _).bind fun _ _ => ?_
      exact .ite (.ok _) (.refuse _)

theorem filter_pastParsing (e : TreeExpr) : PastParsing (filter entity e) := by
  cases e with
  | literal kind text =>
    cases kind with
    | boolean => exact (PastParsing.readable text).bind fun _ _ => .ok _
    | _ => exact printed_refused _ _
  | path text =>
    refine (PastParsing.readable text).bind fun path _ =>
      (located_pastParsing entity path).bind fun _ _ => ?_
    exact .ite (.ok _) (.refuse _)
  | not inner => exact (filter_pastParsing inner).bind fun _ _ => .ok _
  | binary op left right =>
    cases op with
    | connective op =>
      exact (filter_pastParsing left).bind fun _ _ => (filter_pastParsing right).bind fun _ _ => .ok _
    | comparison op => exact comparison_pastParsing op left right
    | arithmetic op => exact printed_refused _ _
  | call name args =>
    refine (PastParsing.readable name).bind fun name _ =>
      (functionNamed_pastParsing name).bind fun function _ => ?_
    split
    · exact .refuse _
    · exact stringMatch_pastParsing _ _ args
  | brokenCall name _ =>
    refine (PastParsing.readable name).bind fun name _ =>
      (functionNamed_pastParsing name).bind fun function _ => ?_
    split
    · exact .refuse _
    · exact .broken
  | named value name => exact printed_refused _ _
  | ordered value descending => exact printed_refused _ _
  | broken => exact .broken

theorem condition_pastParsing (items : Option (List TreeExpr)) :
    PastParsing (condition entity items) := by
  unfold condition
  split
  · exact filter_pastParsing _
  · exact .broken

theorem condition_wellTyped {items : Option (List TreeExpr)} {f : Filter}
    (typed : condition entity items = .ok f) : f.WellTyped entity := by
  unfold condition at typed
  split at typed
  · exact (filter_sound typed).2
  · cases typed

theorem compute_pastParsing (done : List ComputeItem) (items : List TreeExpr) :
    PastParsing (compute entity done items) := by
  induction items generalizing done with
  | nil => exact .ok _
  | cons item items ih =>
    cases item with
    | named value text =>
      refine (PastParsing.readable text).bind fun text _ => ?_
      refine .ite (.refuse _) (.ite (.refuse _) ?_)
      exact (operand_pastParsing value).bind fun _ _ => ih _
    | broken => exact .broken
    | _ => exact .refuse _

theorem orderBy_pastParsing (number : Nat) (items : List TreeExpr) :
    PastParsing (orderBy entity number items) := by
  induction items generalizing number with
  | nil => exact .ok _
  | cons item items ih =>
    cases item with
    | ordered value descending =>
      refine (operand_pastParsing value).bind fun _ _ => .ite (.refuse _) ?_
      exact (ih (number + 1)).bind fun _ _ => .ok _
    | broken => exact .broken
    | _ => exact .refuse _

end Typing

theorem Settles.pastParsing {α : Type} {d : Dialect} {sound : α → Prop} {flag : Bool}
    {x : Except Error α} (settles : Settles d sound flag x) :
    PastParsing (x.mapError Failure.error) := by
  cases settles with
  | made => exact .ok _
  | refused cause =>
    intro error failed
    cases failed
    exact fun malformed => nomatch cause.unsupported.1.symm.trans malformed

namespace Pool

variable {p : Pool} {clause : Clause} {source : String} {ts : List Token}

theorem items?_refused {stop : Parser.Stop} (failed : Parser.clause clause ts = .error stop) :
    p.items? clause source ts = .error stop.cause := by
  cases clause with
  | filter =>
    rw [Parser.clause, map_eq_error] at failed
    simp [items?, parseFilter_eq, keep, failed, Except.map]
  | compute =>
    rw [Parser.clause] at failed
    simp [items?, parseCompute_eq, keep, failed, Except.map]
  | orderBy =>
    rw [Parser.clause] at failed
    simp [items?, parseOrderBy_eq, keep, failed, Except.map]

theorem items?_accepted {es : List ParsedExpr} (parsed : Parser.clause clause ts = .ok es) :
    ∃ items, p.items? clause source ts = .ok items := by
  cases clause with
  | filter =>
    obtain ⟨e, parsed, -⟩ := map_eq_ok.1 parsed
    simp [items?, parseFilter_eq, keep, parsed, Except.map]
  | compute =>
    rw [Parser.clause] at parsed
    simp [items?, parseCompute_eq, keep, parsed, Except.map]
  | orderBy =>
    rw [Parser.clause] at parsed
    simp [items?, parseOrderBy_eq, keep, parsed, Except.map]

end Pool

theorem Compiler.generate_eq_error {α β : Type} {generation : α → Except Error β}
    {model : Except Failure α × Pool} {failure : Failure} (failed : model.1 = .error failure) :
    (generate generation model).1 = .error failure := by
  rw [generate, failed]
  rfl

namespace Request

variable {r : Request} {p : Pool}

theorem run_eq_error {failure : Failure}
    (filters : r.clause = .filter → (Compiler.filterModel r.source r.entity p).1 = .error failure)
    (computes : r.clause = .compute → (Compiler.computeModel r.source r.entity p).1 = .error failure)
    (orders : r.clause = .orderBy → (Compiler.orderByModel r.source r.entity p).1 = .error failure) :
    (r.run p).1 = .error failure := by
  obtain ⟨clause, dialect, source, entity⟩ := r
  cases clause with
  | filter =>
    cases dialect with
    | none => exact map_eq_error.2 (filters rfl)
    | some d => exact map_eq_error.2 (Compiler.generate_eq_error (filters rfl))
  | compute =>
    cases dialect with
    | none => exact map_eq_error.2 (computes rfl)
    | some d => exact map_eq_error.2 (Compiler.generate_eq_error (computes rfl))
  | orderBy =>
    cases dialect with
    | none => exact map_eq_error.2 (orders rfl)
    | some d => exact map_eq_error.2 (Compiler.generate_eq_error (orders rfl))

theorem run_lexical {error : LexError} (failed : Token.tokenize r.source = .error error) :
    (r.run p).1 = .error (.error (.lexical error)) :=
  run_eq_error (fun _ => Compiler.model_unlexed failed) (fun _ => Compiler.model_unlexed failed)
    fun _ => Compiler.model_unlexed failed

variable {ts : List Token} (lexed : Token.tokenize r.source = .ok ts)
include lexed

theorem run_grammar {stop : Parser.Stop} (failed : Parser.clause r.clause ts = .error stop) :
    (r.run p).1 = .error (.error (.grammar stop.cause)) := by
  have refused : p.items? r.clause r.source ts = .error stop.cause := Pool.items?_refused failed
  refine run_eq_error (fun filters => ?_) (fun computes => ?_) fun orders => ?_
  · rw [filters] at refused
    rw [Compiler.filterModel_seen lexed, refused]
    rfl
  · rw [computes] at refused
    rw [Compiler.computeModel_seen lexed, refused]
    rfl
  · rw [orders] at refused
    rw [Compiler.orderByModel_seen lexed, refused]
    rfl

theorem run_pastParsing {es : List ParsedExpr} (parsed : Parser.clause r.clause ts = .ok es) :
    PastParsing (r.run p).1 := by
  obtain ⟨clause, dialect, source, entity⟩ := r
  obtain ⟨items, read⟩ : ∃ items, p.items? clause source ts = .ok items := Pool.items?_accepted parsed
  -- Generation gets models that have been typed, so nothing but the dialect can stop it.
  cases clause with
  | filter =>
    have model : (Compiler.filterModel source entity p).1 = Typing.condition entity items := by
      rw [Compiler.filterModel_seen lexed, read]
      rfl
    have first : PastParsing (Compiler.filterModel source entity p).1 :=
      model ▸ Typing.condition_pastParsing items
    cases dialect with
    | none => exact first.map _
    | some d =>
      refine (first.bind fun f typed => ?_).map _
      rw [model] at typed
      exact (Generation.filterSql_settles (Typing.condition_wellTyped typed)).pastParsing
  | compute =>
    have model : (Compiler.computeModel source entity p).1 =
        Typing.readable items >>= Typing.compute entity [] := by
      rw [Compiler.computeModel_seen lexed, read]
      rfl
    have first : PastParsing (Compiler.computeModel source entity p).1 :=
      model ▸ (PastParsing.readable items).bind fun es _ => Typing.compute_pastParsing [] es
    cases dialect with
    | none => exact first.map _
    | some d =>
      refine (first.bind fun items typed => ?_).map _
      rw [model] at typed
      obtain ⟨es, -, typed⟩ := bind_eq_ok.1 typed
      exact (Generation.computeSql_settles (compute_sound .nil typed).2).pastParsing
  | orderBy =>
    have model : (Compiler.orderByModel source entity p).1 =
        Typing.readable items >>= Typing.orderBy entity 1 := by
      rw [Compiler.orderByModel_seen lexed, read]
      rfl
    have first : PastParsing (Compiler.orderByModel source entity p).1 :=
      model ▸ (PastParsing.readable items).bind fun es _ => Typing.orderBy_pastParsing 1 es
    cases dialect with
    | none => exact first.map _
    | some d =>
      refine (first.bind fun items typed => ?_).map _
      rw [model] at typed
      obtain ⟨es, -, typed⟩ := bind_eq_ok.1 typed
      exact (Generation.orderBySql_settles (orderBy_sound typed).2).pastParsing

omit lexed in
theorem run_malformed_iff :
    (∃ error, (r.run p).1 = .error (.error error) ∧ error.kind = .malformed) ↔
      (∃ error, Token.tokenize r.source = .error error) ∨
      ∃ ts stop, Token.tokenize r.source = .ok ts ∧ Parser.clause r.clause ts = .error stop := by
  constructor
  · rintro ⟨error, failed, malformed⟩
    cases lexed : Token.tokenize r.source with
    | error cause => exact .inl ⟨cause, rfl⟩
    | ok ts =>
      cases parsed : Parser.clause r.clause ts with
      | error stop => exact .inr ⟨ts, stop, rfl, parsed⟩
      | ok es => exact absurd malformed (run_pastParsing lexed parsed error failed)
  · rintro (⟨error, failed⟩ | ⟨ts, stop, lexed, failed⟩)
    · exact ⟨_, run_lexical failed, rfl⟩
    · exact ⟨_, run_grammar lexed failed, rfl⟩

end Request

theorem Lexing.Boundary.le {source : List Char} {position : Nat} (boundary : Boundary source position) :
    position ≤ Text.byteLength source := by
  obtain ⟨front, back, rfl, rfl⟩ := boundary
  rw [Text.byteLength_append]
  exact Nat.le_add_right _ _

theorem Request.run_boundary {r : Request} {p : Pool} {error : Error}
    (failed : (r.run p).1 = .error (.error error)) (malformed : error.kind = .malformed) :
    ∃ position, error.position? = some position ∧ Lexing.Boundary r.source.toList position := by
  obtain ⟨cause, unlexed⟩ | ⟨ts, stop, lexed, refused⟩ := run_malformed_iff.1 ⟨error, failed, malformed⟩
  · obtain rfl : error = .lexical cause := by simpa [run_lexical unlexed] using failed.symm
    obtain ⟨front, c, rest, whole, found⟩ := Lexing.tokenize_failed unlexed
    exact ⟨cause.position, rfl, whole ▸ found.located.boundary⟩
  · obtain rfl : error = .grammar stop.cause := by simpa [run_grammar lexed refused] using failed.symm
    refine ⟨stop.cause.position, rfl, ?_⟩
    obtain ⟨empty, -⟩ | ⟨seen, after, rfl, fault, -⟩ :=
      Parser.clause_halted (Lexing.tokenize_stream lexed) refused
    · exact ⟨[], r.source.toList, rfl, by rw [empty]; rfl⟩
    · obtain ⟨t, member, place⟩ := fault.position
      rw [place]
      exact ((Lexing.tokenize_layout lexed).tiles.boundaries t (List.mem_append_left _ member)).1

/-- A malformed clause is refused at a place in its source. A clause is malformed if and only if it has no
tokens or its parser refuses them. If the parser does, then the clause is empty, or the error is a fault of
some tokens at its beginning, which have the texts that stand at their places, and the parser would say the
same whatever followed them. -/
theorem syntax_errors_are_located (r : Request) (p : Pool) :
    (∀ error, (r.run p).1 = .error (.error error) → error.kind = .malformed →
      ∃ position, error.position? = some position ∧ position ≤ Text.byteLength r.source.toList ∧
        Lexing.Boundary r.source.toList position) ∧
    (∀ ts stop, Token.tokenize r.source = .ok ts → Parser.clause r.clause ts = .error stop →
      (r.run p).1 = .error (.error (.grammar stop.cause)) ∧
      (stop.cause = .noExpression ∧ (∃ last, ts = [last] ∧ last.kind = .eof) ∨
        ∃ seen after, ts = seen ++ after ∧ Parser.Fault seen stop.cause ∧
          (∀ t ∈ seen, Text.slice? r.source.toList t.start t.stop = some t.lexeme) ∧
          ∀ other, Parser.clause r.clause (seen ++ other) = .error stop)) ∧
    ((∃ error, (r.run p).1 = .error (.error error) ∧ error.kind = .malformed) ↔
      (∃ error, Token.tokenize r.source = .error error) ∨
      ∃ ts stop, Token.tokenize r.source = .ok ts ∧ Parser.clause r.clause ts = .error stop) := by
  refine ⟨fun error failed malformed => ?_, fun ts stop lexed refused => ⟨?_, ?_⟩,
    Request.run_malformed_iff⟩
  · obtain ⟨position, place, boundary⟩ := Request.run_boundary failed malformed
    exact ⟨position, place, boundary.le, boundary⟩
  · exact Request.run_grammar lexed refused
  · obtain empty | ⟨seen, after, rfl, fault, settled⟩ :=
      Parser.clause_halted (Lexing.tokenize_stream lexed) refused
    · exact .inl empty
    · refine .inr ⟨seen, after, rfl, fault, fun t member => ?_, settled⟩
      exact Lexing.tokenize_slice lexed t (List.mem_append_left after member)

/-- The second parenthesis from the right is closed, the third one is not. -/
theorem syntax_errors_are_located_unclosed :
    let source := "concat(A,(B)) eq (C or (D)"
    let r : Request := ⟨.filter, some .sqlite, source, { name := "e", members := [] }⟩
    ∃ ts stop, Token.tokenize source = .ok ts ∧ Parser.clause .filter ts = .error stop ∧
      (r.run .default).1 = .error (.error (.grammar (.missingCloseParen 17))) ∧
      ∃ seen after, ts = seen ++ after ∧ Parser.Fault seen (.missingCloseParen 17) := by
  intro source r
  let ts : List Token :=
    [⟨.functionName, 0, "concat".toList⟩, ⟨.openParen, 6, ['(']⟩, ⟨.identifier, 7, ['A']⟩,
      ⟨.comma, 8, [',']⟩, ⟨.openParen, 9, ['(']⟩, ⟨.identifier, 10, ['B']⟩, ⟨.closeParen, 11, [')']⟩,
      ⟨.closeParen, 12, [')']⟩, ⟨.operator (.comparison .eq), 14, "eq".toList⟩,
      ⟨.openParen, 17, ['(']⟩, ⟨.identifier, 18, ['C']⟩, ⟨.operator (.connective .or), 20, "or".toList⟩,
      ⟨.openParen, 23, ['(']⟩, ⟨.identifier, 24, ['D']⟩, ⟨.closeParen, 25, [')']⟩, ⟨.eof, 26, []⟩]
  have lexed : Token.tokenize source = .ok ts := by decide +kernel
  have causes : (Parser.clause .filter ts).mapError Parser.Stop.cause = .error (.missingCloseParen 17) := by
    with_unfolding_all rfl
  cases refused : Parser.clause .filter ts with
  | ok es => simp [refused, Except.mapError] at causes
  | error stop =>
    have cause : stop.cause = .missingCloseParen 17 := by simpa [refused, Except.mapError] using causes
    obtain ⟨answer, empty | ⟨seen, after, whole, fault, -⟩⟩ :=
      (syntax_errors_are_located r .default).2.1 ts stop lexed refused
    · cases cause.symm.trans empty.1
    · rw [cause] at answer fault
      exact ⟨ts, stop, lexed, refused, answer, seen, after, whole, fault⟩

end ClauseSql
