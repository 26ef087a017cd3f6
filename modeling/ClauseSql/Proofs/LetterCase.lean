import ClauseSql.Proofs.Isolation
import ClauseSql.Proofs.RecasedTokens

/-! The case of letters does not matter in keywords and in the names of functions. Two clauses that
differ in nothing else are read in step: both have the same model and the same SQL, or both fail with the
same kind of error at the same place. Only the texts in the messages may differ. -/
namespace ClauseSql

open Outcome Typing

/-- The same kind of error, at the same place if it has one. -/
inductive Failure.Similar : Failure → Failure → Prop
  | error {e d : Error} (kind : e.kind = d.kind) (position : e.position? = d.position?) :
      Failure.Similar (.error e) (.error d)
  | broken : Failure.Similar .broken .broken

theorem Failure.Similar.refl (failure : Failure) : failure.Similar failure := by
  cases failure with
  | error => exact .error rfl rfl
  | broken => exact .broken

/-- The same texts, up to the case of `true`, `false`, `null` and of the names of functions. -/
def exceptCase : TextLikeness where
  literal kind a b := a.map Text.lower = b.map Text.lower ∧
    ((TokenKind.literal kind).isCaseless = false → a = b)
  name a b := a = b
  function a b := a.map Text.lower = b.map Text.lower

abbrev Typing.Same {α : Type} (x y : Result α) : Prop := InStep Failure.Similar Eq x y

namespace Typing

theorem Same.refl {α : Type} (x : Result α) : Same x x := by
  cases x with
  | ok a => exact .ok rfl
  | error failure => exact .error (.refl failure)

theorem Same.bind {α β : Type} {x y : Result α} {f g : α → Result β} (both : Same x y)
    (next : ∀ a, Same (f a) (g a)) : Same (x >>= f) (y >>= g) := by
  refine InStep.bind both ?_
  rintro a _ rfl
  exact next a

theorem refuse_similar {α β : Type} {related : α → β → Prop} (cause other : Invalid) :
    InStep Failure.Similar related (refuse cause) (refuse other) :=
  .error (.error rfl rfl)

theorem readable_lower {s t : Option (List Char)} (same : s.map Text.lower = t.map Text.lower) :
    InStep Failure.Similar (fun a b => Text.lower a = Text.lower b) (readable s) (readable t) := by
  cases s with
  | none =>
    cases t with
    | none => exact .error .broken
    | some => cases same
  | some =>
    cases t with
    | none => cases same
    | some => exact .ok (Option.some.inj same)

theorem ofName?_lower {a b : List Char} (same : Text.lower a = Text.lower b) :
    Function.ofName? a = Function.ofName? b := by
  rw [Function.ofName?, same, Function.ofName?]

theorem functionNamed_lower {a b : List Char} (same : Text.lower a = Text.lower b) :
    Same (functionNamed a) (functionNamed b) := by
  unfold functionNamed
  rw [ofName?_lower same]
  cases Function.ofName? b with
  | some => exact .ok rfl
  | none => exact refuse_similar _ _

theorem literalValue_lower {kind : LiteralKind} {a b : List Char} (same : Text.lower a = Text.lower b)
    (fixed : (TokenKind.literal kind).isCaseless = false → a = b) :
    Same (literalValue kind a) (literalValue kind b) := by
  cases kind with
  | boolean => exact .ok (by rw [isTrue, same, isTrue])
  | null => exact .ok rfl
  | _ =>
    rw [fixed rfl]
    exact .refl _

theorem isSome_bind_congr {α β γ δ : Type} {x : Option α} {y : Option β} {f : α → Option γ}
    {g : β → Option δ} (same : x.isSome = y.isSome) (next : ∀ a b, (f a).isSome = (g b).isSome) :
    (x >>= f).isSome = (y >>= g).isSome := by
  cases x with
  | none =>
    cases y with
    | none => rfl
    | some => cases same
  | some a =>
    cases y with
    | none => cases same
    | some b => exact next a b

theorem isSome_of_lower {s t : Option (List Char)} (same : s.map Text.lower = t.map Text.lower) :
    s.isSome = t.isSome := by
  simpa using congrArg Option.isSome same

mutual
theorem print?_isSome_eq {a b : TreeExpr} (alike : Expr.Alike exceptCase a b) :
    a.print?.isSome = b.print?.isSome := by
  match alike with
  | .literal text => exact isSome_of_lower text.1
  | .path text => exact congrArg Option.isSome text
  | .not inner => simpa only [Expr.print?, Option.isSome_map] using print?_isSome_eq inner
  | .binary left right =>
    exact isSome_bind_congr (print?_isSome_eq left) fun _ _ =>
      isSome_bind_congr (print?_isSome_eq right) fun _ _ => rfl
  | .call name args =>
    exact isSome_bind_congr (isSome_of_lower name) fun _ _ =>
      isSome_bind_congr (printAll?_isSome_eq args) fun _ _ => rfl
  | .named value name =>
    exact isSome_bind_congr (print?_isSome_eq value) fun _ _ =>
      isSome_bind_congr (congrArg Option.isSome name) fun _ _ => rfl
  | .ordered value => exact isSome_bind_congr (print?_isSome_eq value) fun _ _ => rfl
  | .broken => rfl
  | .brokenCall _ => rfl
theorem printAll?_isSome_eq {as bs : List TreeExpr} (alike : Expr.AlikeAll exceptCase as bs) :
    (Expr.printAll? as).isSome = (Expr.printAll? bs).isSome := by
  match alike with
  | .nil => rfl
  | .cons first others =>
    exact isSome_bind_congr (print?_isSome_eq first) fun _ _ =>
      isSome_bind_congr (printAll?_isSome_eq others) fun _ _ => rfl
end

theorem printed_similar {a b : TreeExpr} (alike : Expr.Alike exceptCase a b) {α : Type}
    {cause other : String → Invalid} :
    Same (printed a >>= fun text => (refuse (cause text) : Result α))
      (printed b >>= fun text => refuse (other text)) := by
  have same := print?_isSome_eq alike
  unfold printed
  cases left : a.print? with
  | none =>
    cases right : b.print? with
    | none => exact .error .broken
    | some => simp [left, right] at same
  | some =>
    cases right : b.print? with
    | none => simp [left, right] at same
    | some => exact refuse_similar _ _

theorem length_eq_of_alike {as bs : List TreeExpr} (alike : Expr.AlikeAll exceptCase as bs) :
    as.length = bs.length := by
  induction as generalizing bs with
  | nil => cases alike; rfl
  | cons _ _ ih =>
    cases alike with
    | cons _ others => exact congrArg (· + 1) (ih others)

section Recased

variable {entity : Entity}

mutual
theorem operand_recased {a b : TreeExpr} (alike : Expr.Alike exceptCase a b) :
    Same (operand entity a) (operand entity b) := by
  match alike with
  | @Expr.Alike.literal _ _ _ _ _ kind s t text =>
    rw [operand, operand]
    cases caseless : (TokenKind.literal kind).isCaseless with
    | false =>
      rw [text.2 caseless]
      exact Same.refl _
    | true =>
      refine (readable_lower text.1).bind fun a b same => ?_
      have value : Same (literalValue kind a) (literalValue kind b) :=
        literalValue_lower same (by simp [caseless])
      exact value.bind fun v => Same.refl _
  | .path text =>
    rw [show _ = _ from text]
    exact Same.refl _
  | @Expr.Alike.binary _ _ _ _ _ op _ _ _ _ first second =>
    cases op with
    | arithmetic op =>
      rw [operand, operand]
      refine (operand_recased first).bind fun left => ?_
      exact (operand_recased second).bind fun right => Same.refl _
    | comparison op => exact printed_similar (.binary first second)
    | connective op => exact printed_similar (.binary first second)
  | .call name args =>
    rw [operand, operand]
    refine (readable_lower name).bind fun s t same => ?_
    refine (functionNamed_lower same).bind fun function => ?_
    rw [length_eq_of_alike args]
    split
    · exact refuse_similar _ _
    · split
      · exact (arguments_recased args).bind fun values => Same.refl _
      · exact refuse_similar _ _
  | .not inner => exact printed_similar (.not inner)
  | .named _ _ => exact refuse_similar _ _
  | .ordered _ => exact refuse_similar _ _
  | .broken => exact .error .broken
  | .brokenCall name =>
    rw [operand, operand]
    refine (readable_lower name).bind fun s t same => ?_
    exact (functionNamed_lower same).bind fun function => Same.refl _
theorem arguments_recased {as bs : List TreeExpr} (alike : Expr.AlikeAll exceptCase as bs)
    {function : Function} {index : Nat} :
    Same (arguments entity function index as) (arguments entity function index bs) := by
  match alike with
  | .nil => exact Same.refl _
  | .cons first others =>
    rw [arguments, arguments]
    refine (operand_recased first).bind fun value => ?_
    obtain ⟨value, type⟩ := value
    dsimp only
    split
    · split
      · exact (arguments_recased others).bind fun values => Same.refl _
      · exact refuse_similar _ _
    · exact (arguments_recased others).bind fun values => Same.refl _
end

theorem stringMatch_recased {as bs : List TreeExpr} (alike : Expr.AlikeAll exceptCase as bs)
    (function : Function) (kind : StringMatch) :
    Same (stringMatch entity function kind as) (stringMatch entity function kind bs) := by
  cases alike with
  | nil => exact Same.refl _
  | cons target others =>
    cases others with
    | nil => exact refuse_similar _ _
    | cons pattern more =>
      cases more with
      | cons _ _ => exact refuse_similar _ _
      | nil =>
        refine (operand_recased target).bind fun value => ?_
        obtain ⟨value, type⟩ := value
        dsimp only
        split
        · exact refuse_similar _ _
        · cases pattern with
          | @literal literal s t text =>
            cases literal with
            | string =>
              rw [text.2 rfl]
              exact Same.refl _
            | _ => exact refuse_similar _ _
          | broken => exact .error .broken
          | _ => exact refuse_similar _ _

structure SameCall (a b : Function × StringMatch × Option (List TreeExpr)) : Prop where
  function : a.1 = b.1
  kind : a.2.1 = b.2.1
  args : Option.Rel (Expr.AlikeAll exceptCase) a.2.2 b.2.2

theorem called_recased {a b : List Char} (same : Text.lower a = Text.lower b)
    {as bs : Option (List TreeExpr)} (args : Option.Rel (Expr.AlikeAll exceptCase) as bs) :
    Option.Rel SameCall (calledMatch?.called a as) (calledMatch?.called b bs) := by
  unfold calledMatch?.called
  rw [ofName?_lower same]
  cases Function.ofName? b with
  | none => exact .none
  | some function =>
    rw [Option.bind_some, Option.bind_some]
    cases function.stringMatch? with
    | none => exact .none
    | some kind => exact .some ⟨rfl, rfl, args⟩

theorem calledMatch?_recased {a b : TreeExpr} (alike : Expr.Alike exceptCase a b) :
    InStep Failure.Similar (Option.Rel SameCall) (calledMatch? a) (calledMatch? b) := by
  cases alike with
  | call name args =>
    exact (readable_lower name).bind fun s t same => .ok (called_recased same (.some args))
  | brokenCall name =>
    exact (readable_lower name).bind fun s t same => .ok (called_recased same .none)
  | broken => exact .error .broken
  | _ => exact .ok .none

theorem fold?_recased {a b c d : TreeExpr} (call : Expr.Alike exceptCase a b)
    (other : Expr.Alike exceptCase c d) (op : Comparison) :
    Same (fold? entity a op c) (fold? entity b op d) := by
  unfold fold?
  refine (calledMatch?_recased call).bind fun left right same => ?_
  cases same with
  | none => exact Same.refl _
  | @some x y same =>
    obtain ⟨function, kind, as⟩ := x
    obtain ⟨_, _, bs⟩ := y
    obtain ⟨rfl, rfl, args⟩ := same
    have matched (negated : Bool) :
        Same (do
            let args ← readable as
            let found ← stringMatch entity function kind args
            return some (if negated then .not found else found))
          (do
            let args ← readable bs
            let found ← stringMatch entity function kind args
            return some (if negated then .not found else found)) := by
      cases args with
      | none => exact .error .broken
      | some args => exact (stringMatch_recased args function kind).bind fun matched => Same.refl _
    cases other with
    | @literal literal s t text =>
      cases literal with
      | boolean =>
        have word : Same ((readable s).map isTrue) ((readable t).map isTrue) :=
          (readable_lower text.1).map fun a b same => by rw [isTrue, same, isTrue]
        refine word.bind fun expected => ?_
        exact (Same.refl (negation function op expected)).bind matched
      | _ => exact refuse_similar _ _
    | broken => exact .error .broken
    | _ => exact refuse_similar _ _

theorem comparison_recased {a b c d : TreeExpr} (first : Expr.Alike exceptCase a b)
    (second : Expr.Alike exceptCase c d) (op : Comparison) :
    Same (comparison entity op a c) (comparison entity op b d) := by
  unfold comparison
  refine (fold?_recased first second op).bind fun folded => ?_
  cases folded with
  | some => exact Same.refl _
  | none =>
    refine (fold?_recased second first op).bind fun folded => ?_
    cases folded with
    | some => exact Same.refl _
    | none =>
      refine (operand_recased first).bind fun left => ?_
      exact (operand_recased second).bind fun right => Same.refl _

theorem filter_recased {a b : TreeExpr} (alike : Expr.Alike exceptCase a b) :
    Same (Typing.filter entity a) (Typing.filter entity b) := by
  match alike with
  | @Expr.Alike.literal _ _ _ _ _ kind _ _ text =>
    cases kind with
    | boolean =>
      rw [Typing.filter, Typing.filter]
      refine (readable_lower text.1).bind fun s t same => .ok ?_
      rw [isTrue, same, isTrue]
    | _ => exact printed_similar (.literal text)
  | .path text =>
    rw [show _ = _ from text]
    exact Same.refl _
  | .not inner =>
    rw [Typing.filter, Typing.filter]
    exact (filter_recased inner).bind fun condition => Same.refl _
  | @Expr.Alike.binary _ _ _ _ _ op _ _ _ _ first second =>
    cases op with
    | connective op =>
      rw [Typing.filter, Typing.filter]
      refine (filter_recased first).bind fun left => ?_
      exact (filter_recased second).bind fun right => Same.refl _
    | comparison op =>
      rw [Typing.filter, Typing.filter]
      exact comparison_recased first second op
    | arithmetic op => exact printed_similar (.binary first second)
  | .call name args =>
    rw [Typing.filter, Typing.filter]
    refine (readable_lower name).bind fun s t same => ?_
    refine (functionNamed_lower same).bind fun function => ?_
    cases function.stringMatch? with
    | none => exact refuse_similar _ _
    | some kind => exact stringMatch_recased args function kind
  | .named value name => exact printed_similar (.named value name)
  | .ordered value => exact printed_similar (.ordered value)
  | .broken => exact .error .broken
  | .brokenCall name =>
    rw [Typing.filter, Typing.filter]
    refine (readable_lower name).bind fun s t same => ?_
    exact (functionNamed_lower same).bind fun function => Same.refl _

theorem compute_recased {as bs : List TreeExpr} (alike : Expr.AlikeAll exceptCase as bs)
    (done : List ComputeItem) :
    Same (Typing.compute entity done as) (Typing.compute entity done bs) := by
  induction as generalizing bs done with
  | nil =>
    cases alike
    exact Same.refl _
  | cons item items ih =>
    cases alike with
    | cons first more =>
      cases first with
      | @named s t value other inner name =>
        obtain rfl : s = t := name
        rw [Typing.compute, Typing.compute]
        refine (Same.refl (readable s)).bind fun text => ?_
        dsimp only
        split
        · exact Same.refl _
        · split
          · exact Same.refl _
          · refine (operand_recased inner).bind fun typed => ?_
            exact ih more _
      | broken => exact .error .broken
      | _ => exact refuse_similar _ _

theorem orderBy_recased {as bs : List TreeExpr} (alike : Expr.AlikeAll exceptCase as bs)
    (number : Nat) : Same (Typing.orderBy entity number as) (Typing.orderBy entity number bs) := by
  induction as generalizing bs number with
  | nil =>
    cases alike
    exact Same.refl _
  | cons item items ih =>
    cases alike with
    | cons first more =>
      cases first with
      | ordered inner =>
        rw [Typing.orderBy, Typing.orderBy]
        refine (operand_recased inner).bind fun typed => ?_
        obtain ⟨value, type⟩ := typed
        dsimp only
        split
        · exact Same.refl _
        · exact (ih more (number + 1)).bind fun rest => Same.refl _
      | broken => exact .error .broken
      | _ => exact refuse_similar _ _

theorem condition_recased {as bs : Option (List TreeExpr)}
    (alike : Option.Rel (Expr.AlikeAll exceptCase) as bs) :
    Same (condition entity as) (condition entity bs) := by
  cases alike with
  | none => exact .error .broken
  | some alike =>
    cases alike with
    | nil => exact .error .broken
    | cons first others =>
      cases others with
      | nil => exact filter_recased first
      | cons => exact .error .broken

theorem readable_recased {as bs : Option (List TreeExpr)}
    (alike : Option.Rel (Expr.AlikeAll exceptCase) as bs) :
    InStep Failure.Similar (Expr.AlikeAll exceptCase) (readable as) (readable bs) := by
  cases alike with
  | none => exact .error .broken
  | some alike => exact .ok alike

end Recased

end Typing

theorem tokens_exceptCase {ts us : List Token} (same : List.Forall₂ Token.SameButCase ts us)
    {o p : Tree.Origin} (left : ∀ t ∈ ts, o.text? t.span = some t.lexeme)
    (right : ∀ u ∈ us, p.text? u.span = some u.lexeme) :
    List.Forall₂ ((exceptCase.spans o p).TokensAt True) ts us := by
  induction same with
  | nil => exact .nil
  | @cons t u ts us first _ ih =>
    have others := ih (fun t mem => left t (List.mem_cons_of_mem _ mem))
      fun u mem => right u (List.mem_cons_of_mem _ mem)
    refine .cons ⟨⟨first.kind, ?_, ?_⟩, fun _ => ?_⟩ others
    · have lowered : (o.text? t.span).map Text.lower = (p.text? u.span).map Text.lower := by
        rw [left t List.mem_cons_self, right u List.mem_cons_self, Option.map_some, Option.map_some,
          first.letters]
      have fixed : t.kind.isCaseless = false → o.text? t.span = p.text? u.span := by
        intro fixed
        rw [left t List.mem_cons_self, right u List.mem_cons_self, first.lexeme fixed]
      cases kind : t.kind with
      | literal k =>
        rw [kind] at fixed
        exact ⟨lowered, fixed⟩
      | identifier | path =>
        rw [kind] at fixed
        exact fixed rfl
      | functionName => exact lowered
      | _ => trivial
    · intro word
      rw [first.lexeme (by rw [word]; rfl)]
    · have size : t.length = u.length := by
        rw [Token.length, Token.length, ← Lexing.byteLength_lower, ← first.letters,
          Lexing.byteLength_lower]
      rw [Token.span, Token.span, Token.stop, Token.stop, first.start, size]

namespace Pool

theorem keep_inStep {α ρ γ : Type} {p q : Pool} {s r : String} {parsed reparsed : Except Parser.Stop α}
    {store : Tree → α → ρ × Tree} {see : Tree × ρ → γ} {own : α → α → Prop} {related : γ → γ → Prop}
    (both : InStep (Likeness.StopsAt True) own parsed reparsed)
    (seen : ∀ kept other, (p.keep s parsed store).1 = .ok kept →
      (q.keep r reparsed store).1 = .ok other → related (see kept) (see other)) :
    InStep (fun e d : ParseError => e.position = d.position) related
      ((p.keep s parsed store).1.map see) ((q.keep r reparsed store).1.map see) := by
  cases both with
  | ok => exact .ok (seen _ _ rfl rfl)
  | error same => exact .error (same trivial)

theorem items?_recased {p q : Pool} (reachable : p.Reachable) (other : q.Reachable) {s r : String}
    {ts us : List Token} (lexed : Token.tokenize s = .ok ts) (relexed : Token.tokenize r = .ok us)
    (same : List.Forall₂ Token.SameButCase ts us) (clause : Clause) :
    InStep (fun e d : ParseError => e.position = d.position) (Option.Rel (Expr.AlikeAll exceptCase))
      (p.items? clause s ts) (q.items? clause r us) := by
  have placed := tokens_exceptCase same (o := ⟨s.toList, p.generation⟩) (p := ⟨r.toList, q.generation⟩)
    (Lexing.tokenize_slice lexed) (Lexing.tokenize_slice relexed)
  cases clause with
  | filter =>
    have both := Likeness.filter_inStep placed
    simp only [items?, parseFilter_eq]
    exact keep_inStep both fun kept again parsed reparsed =>
      .some (.cons (keepRoot_alike both.agree reachable other parsed reparsed) .nil)
  | compute =>
    have both := Likeness.compute_inStep placed
    simp only [items?, parseCompute_eq]
    exact keep_inStep both fun kept again parsed reparsed =>
      keepItems_alike both.agree reachable other parsed reparsed
  | orderBy =>
    have both := Likeness.orderBy_inStep placed
    simp only [items?, parseOrderBy_eq]
    exact keep_inStep both fun kept again parsed reparsed =>
      keepItems_alike both.agree reachable other parsed reparsed

end Pool

namespace Compiler

variable {p q : Pool} (reachable : p.Reachable) (other : q.Reachable) {s r : String}
  {ts us : List Token} (lexed : Token.tokenize s = .ok ts) (relexed : Token.tokenize r = .ok us)
  (same : List.Forall₂ Token.SameButCase ts us) (entity : Entity)
include reachable other lexed relexed same

theorem items_similar (clause : Clause) :
    InStep Failure.Similar (Option.Rel (Expr.AlikeAll exceptCase))
      ((p.items? clause s ts).mapError fun error => .error (.grammar error))
      ((q.items? clause r us).mapError fun error => .error (.grammar error)) :=
  (Pool.items?_recased reachable other lexed relexed same clause).mapError fun _ _ place =>
    .error rfl (congrArg some place)

theorem filterModel_recased : Same (filterModel s entity p).1 (filterModel r entity q).1 := by
  rw [filterModel_seen lexed, filterModel_seen relexed]
  have items := items_similar reachable other lexed relexed same .filter
  exact items.bind fun _ _ alike => condition_recased alike

theorem computeModel_recased : Same (computeModel s entity p).1 (computeModel r entity q).1 := by
  rw [computeModel_seen lexed, computeModel_seen relexed]
  have items := items_similar reachable other lexed relexed same .compute
  refine items.bind fun _ _ alike => ?_
  exact (readable_recased alike).bind fun _ _ alike => compute_recased alike []

theorem orderByModel_recased : Same (orderByModel s entity p).1 (orderByModel r entity q).1 := by
  rw [orderByModel_seen lexed, orderByModel_seen relexed]
  have items := items_similar reachable other lexed relexed same .orderBy
  refine items.bind fun _ _ alike => ?_
  exact (readable_recased alike).bind fun _ _ alike => orderBy_recased alike 1

omit reachable other lexed relexed same in
theorem generate_same {α β : Type} (generation : α → Except Error β) {x y : Except Failure α × Pool}
    (models : Same x.1 y.1) : Same (generate generation x).1 (generate generation y).1 :=
  models.bind fun _ => Same.refl _

end Compiler

/-- The case of letters in keywords and in the names of functions is free. For every clause, entity and
dialect, a source that has tokens and the same source with such letters in the other case come to the
same model and the same SQL with the same arguments, or both fail, with the same kind of error and, if
the clause is malformed, at the same place. -/
theorem letter_case_is_free {s r : String} {ts : List Token} (lexed : Token.tokenize s = .ok ts)
    (recased : Lexing.Recased ts s.toList r.toList) (clause : Clause) (dialect : Option Dialect)
    (entity : Entity) {p q : Pool} (reachable : p.Reachable) (other : q.Reachable) :
    InStep Failure.Similar Eq (Request.run ⟨clause, dialect, s, entity⟩ p).1
      (Request.run ⟨clause, dialect, r, entity⟩ q).1 := by
  obtain ⟨us, relexed, same⟩ := Lexing.tokenize_recased lexed recased
  have answer {α : Type} {x y : Result α} (results : Same x y) (make : α → Answer) :
      Same (x.map make) (y.map make) := results.map fun _ _ equal => congrArg make equal
  cases clause with
  | filter =>
    have models := Compiler.filterModel_recased reachable other lexed relexed same entity
    cases dialect with
    | none => exact answer models .filterModel
    | some dialect => exact answer (Compiler.generate_same _ models) .filter
  | compute =>
    have models := Compiler.computeModel_recased reachable other lexed relexed same entity
    cases dialect with
    | none => exact answer models .computeModel
    | some dialect => exact answer (Compiler.generate_same _ models) .compute
  | orderBy =>
    have models := Compiler.orderByModel_recased reachable other lexed relexed same entity
    cases dialect with
    | none => exact answer models .orderByModel
    | some dialect => exact answer (Compiler.generate_same _ models) .orderBy

/-- A function, operators, `false` and `null`, each in two ways. The string keeps its letters. -/
theorem letter_case_is_free_mixed :
    let s := "StartsWith(Name,'AND') NE False or Name Eq NULL"
    let r := "startswith(Name,'AND') ne FALSE OR Name eQ null"
    let entity : Entity :=
      { name := "person", members := [("Name", .primitive ⟨"name", .text, true, none⟩)] }
    ∃ ts answer, Token.tokenize s = .ok ts ∧ Lexing.Recased ts s.toList r.toList ∧
      Pool.default.Reachable ∧
      answer = .filter ⟨"(name LIKE ? ESCAPE '\\') OR (name IS NULL)", [.text "AND%"]⟩ ∧
      (Request.run ⟨.filter, some .sqlite, s, entity⟩ .default).1 = .ok answer ∧
      (Request.run ⟨.filter, some .sqlite, r, entity⟩ .default).1 = .ok answer := by
  intro s r entity
  let ts : List Token :=
    [⟨.functionName, 0, "StartsWith".toList⟩, ⟨.openParen, 10, ['(']⟩, ⟨.identifier, 11, "Name".toList⟩,
      ⟨.comma, 15, [',']⟩, ⟨.literal .string, 16, "'AND'".toList⟩, ⟨.closeParen, 21, [')']⟩,
      ⟨.operator (.comparison .ne), 23, "NE".toList⟩, ⟨.literal .boolean, 26, "False".toList⟩,
      ⟨.operator (.connective .or), 32, "or".toList⟩, ⟨.identifier, 35, "Name".toList⟩,
      ⟨.operator (.comparison .eq), 40, "Eq".toList⟩, ⟨.literal .null, 43, "NULL".toList⟩,
      ⟨.eof, 47, []⟩]
  have lexed : Token.tokenize s = .ok ts := by decide +kernel
  have recased : Lexing.Recased ts s.toList r.toList := by decide +kernel
  have reachable : Pool.default.Reachable := .ofCapacity Pool.defaultCapacity
  have compiled : (Compiler.filter .sqlite s entity .default).1 =
      .ok ⟨"(name LIKE ? ESCAPE '\\') OR (name IS NULL)", [.text "AND%"]⟩ := by decide +kernel
  have left : (Request.run ⟨.filter, some .sqlite, s, entity⟩ .default).1 =
      .ok (.filter ⟨"(name LIKE ? ESCAPE '\\') OR (name IS NULL)", [.text "AND%"]⟩) :=
    congrArg (Except.map Answer.filter) compiled
  refine ⟨ts, _, lexed, recased, reachable, rfl, left, ?_⟩
  have both := letter_case_is_free lexed recased .filter (some .sqlite) entity reachable reachable
  rw [left] at both
  generalize (Request.run ⟨.filter, some .sqlite, r, entity⟩ .default).1 = right at both ⊢
  cases both with
  | ok same => rw [same]

end ClauseSql
