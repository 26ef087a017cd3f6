import ClauseSql.Proofs.LiteralValues
import ClauseSql.Proofs.TreeReading
import ClauseSql.Proofs.TypingRules

/-! Typing and broken references. An expression is readable if it has all its texts and parts, and its
string literals have their quotes. Whatever typing makes of a readable expression, it does not stop
at something that cannot be read. -/
namespace ClauseSql

open Outcome

inductive Readable : Typing.TreeExpr → Prop
  | literal {kind : LiteralKind} {text : List Char} : Lexing.Meaningful kind text →
      Readable (.literal kind (some text))
  | path {text : List Char} : Readable (.path (some text))
  | not {operand : Typing.TreeExpr} : Readable operand → Readable (.not operand)
  | binary {op : BinaryOperator} {left right : Typing.TreeExpr} : Readable left → Readable right →
      Readable (.binary op left right)
  | call {name : List Char} {args : List Typing.TreeExpr} : (∀ arg ∈ args, Readable arg) →
      Readable (.call (some name) args)
  | named {value : Typing.TreeExpr} {name : List Char} : Readable value →
      Readable (.named value (some name))
  | ordered {value : Typing.TreeExpr} {descending : Bool} : Readable value →
      Readable (.ordered value descending)

/-- Texts that can be read, those of literals with what they stand for. -/
def readableTexts : TextLikeness where
  literal kind a _ := ∃ text, a = some text ∧ Lexing.Meaningful kind text
  name a _ := ∃ text, a = some text
  function a _ := ∃ text, a = some text

theorem tokens_readable {source : String} {ts : List Token} (lexed : Token.tokenize source = .ok ts)
    (generation : UInt32) :
    List.Forall₂ (readableTexts.spans ⟨source.toList, generation⟩ ⟨source.toList, generation⟩).Tokens
      ts ts := by
  rw [List.forall₂_same]
  intro t member
  refine ⟨rfl, ?_, fun _ => rfl⟩
  have text := Lexing.tokenize_slice lexed t member
  cases kind : t.kind with
  | literal k => exact ⟨t.lexeme, text, Lexing.tokenize_meaningful lexed member kind⟩
  | identifier | path | functionName => exact ⟨t.lexeme, text⟩
  | _ => trivial

mutual
theorem Expr.readable_read {o : Tree.Origin} {a b : ParsedExpr}
    (alike : Expr.Alike (readableTexts.spans o o) a b) : Readable (a.read o.text?) := by
  match alike with
  | .literal text =>
    obtain ⟨cs, found, meaningful⟩ := text
    rw [Expr.read, found]
    exact .literal meaningful
  | .path text =>
    obtain ⟨cs, found⟩ := text
    rw [Expr.read, found]
    exact .path
  | .not inner => exact .not (readable_read inner)
  | .binary left right => exact .binary (readable_read left) (readable_read right)
  | .call text args =>
    obtain ⟨cs, found⟩ := text
    rw [Expr.read, found]
    exact .call (readable_readAll args)
  | .named inner text =>
    obtain ⟨cs, found⟩ := text
    rw [Expr.read, found]
    exact .named (readable_read inner)
  | .ordered inner => exact .ordered (readable_read inner)
  | .broken (x := x) => exact nomatch x
  | .brokenCall (x := x) _ => exact nomatch x
theorem Expr.readable_readAll {o : Tree.Origin} {as bs : List ParsedExpr}
    (alike : Expr.AlikeAll (readableTexts.spans o o) as bs) :
    ∀ e ∈ Expr.readAll o.text? as, Readable e := by
  match alike with
  | .nil => exact List.forall_mem_nil _
  | .cons first others => exact List.forall_mem_cons.2 ⟨readable_read first, readable_readAll others⟩
end

namespace Typing

def Stands {α : Type} (x : Result α) : Prop := x ≠ .error .broken

section Steps

variable {α β : Type}

theorem stands_ok (a : α) : Stands (.ok a) := by
  intro stopped
  cases stopped

theorem stands_refuse (cause : Invalid) : Stands (refuse cause : Result α) := by
  intro stopped
  cases stopped

theorem stands_readable {x : Option α} (found : x.isSome = true) : Stands (readable x) := by
  obtain ⟨a, rfl⟩ := Option.isSome_iff_exists.1 found
  exact stands_ok a

theorem Stands.bind {x : Result α} {f : α → Result β} (first : Stands x)
    (next : ∀ a, Stands (f a)) : Stands (x >>= f) := by
  cases x with
  | error failure =>
    intro stopped
    cases stopped
    exact first rfl
  | ok a => exact next a

theorem Stands.map {x : Result α} (first : Stands x) (f : α → β) : Stands (x.map f) := by
  cases x with
  | error failure =>
    intro stopped
    cases stopped
    exact first rfl
  | ok a => exact stands_ok (f a)

theorem stands_if {c : Prop} [Decidable c] {x y : Result α} (first : Stands x) (second : Stands y) :
    Stands (if c then x else y) := by
  split
  · exact first
  · exact second

end Steps

theorem dateOf_stands (text : List Char) : Stands (dateOf text) := by
  unfold dateOf
  split
  · exact stands_ok _
  · exact stands_refuse _

theorem literalValue_stands {kind : LiteralKind} {text : List Char}
    (meaningful : Lexing.Meaningful kind text) : Stands (literalValue kind text) := by
  cases kind with
  | null | boolean => exact stands_ok _
  | string => exact (stands_readable meaningful).map _
  | date => exact (dateOf_stands text).map _
  | number | dateTime =>
    unfold literalValue
    dsimp only
    split
    · exact stands_ok _
    · exact stands_refuse _

theorem functionNamed_stands (name : List Char) : Stands (functionNamed name) := by
  unfold functionNamed
  split
  · exact stands_ok _
  · exact stands_refuse _

theorem located_stands (entity : Entity) (path : List Char) : Stands (located entity path) := by
  unfold located
  split
  · exact stands_ok _
  · exact stands_refuse _

theorem printAll?_isSome {es : List TreeExpr} (each : ∀ e ∈ es, (Expr.print? e).isSome = true) :
    (Expr.printAll? es).isSome = true := by
  induction es with
  | nil => rfl
  | cons e es ih =>
    rw [List.forall_mem_cons] at each
    obtain ⟨text, first⟩ := Option.isSome_iff_exists.1 each.1
    obtain ⟨texts, rest⟩ := Option.isSome_iff_exists.1 (ih each.2)
    simp [Expr.printAll?, first, rest]

theorem print?_isSome {e : TreeExpr} (readable : Readable e) : (Expr.print? e).isSome = true := by
  induction readable with
  | literal _ => rfl
  | path => rfl
  | not _ ih => simpa [Expr.print?] using ih
  | binary _ _ ih jh =>
    obtain ⟨_, left⟩ := Option.isSome_iff_exists.1 ih
    obtain ⟨_, right⟩ := Option.isSome_iff_exists.1 jh
    simp [Expr.print?, left, right]
  | call _ ih =>
    obtain ⟨_, args⟩ := Option.isSome_iff_exists.1 (printAll?_isSome ih)
    simp [Expr.print?, args]
  | named _ ih =>
    obtain ⟨_, value⟩ := Option.isSome_iff_exists.1 ih
    simp [Expr.print?, value]
  | ordered _ ih =>
    obtain ⟨_, value⟩ := Option.isSome_iff_exists.1 ih
    simp [Expr.print?, value]

theorem printed_stands {e : TreeExpr} (readable : Readable e) : Stands (printed e) :=
  (stands_readable (print?_isSome readable)).map _

variable {entity : Entity}

theorem arguments_stands {function : Function} {index : Nat} {args : List TreeExpr}
    (each : ∀ arg ∈ args, Stands (operand entity arg)) :
    Stands (arguments entity function index args) := by
  induction args generalizing index with
  | nil => exact stands_ok _
  | cons arg args ih =>
    rw [List.forall_mem_cons] at each
    have rest (value : Operand) : Stands (do
        let values ← arguments entity function (index + 1) args
        return value :: values) := (ih each.2).bind fun _ => stands_ok _
    rw [arguments]
    refine each.1.bind fun typed => ?_
    obtain ⟨value, type⟩ := typed
    dsimp only
    split
    · exact stands_if (rest value) (stands_refuse _)
    · exact rest value

theorem operand_stands {e : TreeExpr} (readable : Readable e) : Stands (operand entity e) := by
  induction readable with
  | literal meaningful => exact (literalValue_stands meaningful).bind fun _ => stands_ok _
  | path => exact (located_stands entity _).bind fun _ => stands_ok _
  | not inner _ => exact (printed_stands (.not inner)).bind fun _ => stands_refuse _
  | @binary op left right first second ih jh =>
    cases op with
    | arithmetic op =>
      refine ih.bind fun _ => jh.bind fun _ => ?_
      exact stands_if (stands_refuse _) (stands_if (stands_refuse _) (stands_ok _))
    | _ => exact (printed_stands (.binary first second)).bind fun _ => stands_refuse _
  | call _ ih =>
    refine (functionNamed_stands _).bind fun function => ?_
    refine stands_if (stands_refuse _) (stands_if ?_ (stands_refuse _))
    exact (arguments_stands ih).bind fun _ => stands_ok _
  | named => exact stands_refuse _
  | ordered => exact stands_refuse _

theorem stringMatch_stands {function : Function} {kind : StringMatch} {args : List TreeExpr}
    (each : ∀ arg ∈ args, Readable arg) : Stands (stringMatch entity function kind args) := by
  unfold stringMatch
  split
  · next target pattern =>
    simp only [List.forall_mem_cons] at each
    refine (operand_stands each.1).bind fun ⟨value, type⟩ => stands_if (stands_refuse _) ?_
    cases each.2.1 with
    | @literal kind text meaningful =>
      cases kind with
      | string => exact (stands_readable meaningful).bind fun _ => stands_ok _
      | _ => exact stands_refuse _
    | _ => exact stands_refuse _
  · exact stands_refuse _

theorem calledMatch?_call (name : List Char) (args : List TreeExpr) :
    ∃ found, calledMatch? (.call (some name) args) = .ok found ∧
      ∀ function kind given, found = some (function, kind, given) → given = some args := by
  refine ⟨calledMatch?.called name (some args), rfl, ?_⟩
  intro function kind given same
  obtain ⟨f, -, same⟩ := Option.bind_eq_some_iff.1 same
  obtain ⟨k, -, same⟩ := Option.map_eq_some_iff.1 same
  cases same
  rfl

theorem negation_stands (function : Function) (op : Comparison) (expected : Bool) :
    Stands (negation function op expected) := by
  cases op <;> first | exact stands_ok _ | exact stands_refuse _

theorem fold?_stands {call other : TreeExpr} {op : Comparison} (first : Readable call)
    (second : Readable other) : Stands (fold? entity call op other) := by
  unfold fold?
  cases first with
  | @call name args each =>
    obtain ⟨found, called, given⟩ := calledMatch?_call name args
    rw [called, ok_bind]
    cases found with
    | none => exact stands_ok _
    | some found =>
      obtain ⟨function, kind, list⟩ := found
      obtain rfl : list = some args := given function kind list rfl
      cases second with
      | @literal kind _ _ =>
        cases kind with
        | boolean =>
          refine (negation_stands function op _).bind fun _ => ?_
          exact (stringMatch_stands each).bind fun _ => stands_ok _
        | _ => exact stands_refuse _
      | _ => exact stands_refuse _
  | _ => exact stands_ok _

theorem coerce_stands (value : Operand) (type other : ValueType) :
    Stands (coerce value type other) := by
  unfold coerce
  split
  · split
    · exact (dateOf_stands _).bind fun _ => stands_ok _
    · split
      · exact stands_ok _
      · exact (dateOf_stands _).bind fun _ => stands_ok _
    · exact stands_ok _
  · exact stands_ok _

theorem comparison_stands {op : Comparison} {left right : TreeExpr} (first : Readable left)
    (second : Readable right) : Stands (comparison entity op left right) := by
  unfold comparison
  refine (fold?_stands first second).bind fun folded => ?_
  cases folded with
  | some folded => exact stands_ok _
  | none =>
    refine (fold?_stands second first).bind fun folded => ?_
    cases folded with
    | some folded => exact stands_ok _
    | none =>
      refine (operand_stands first).bind fun _ => (operand_stands second).bind fun _ => ?_
      refine stands_if (stands_refuse _) ?_
      refine (coerce_stands _ _ _).bind fun _ => (coerce_stands _ _ _).bind fun _ => ?_
      exact stands_if (stands_ok _) (stands_refuse _)

theorem filter_stands {e : TreeExpr} (readable : Readable e) : Stands (filter entity e) := by
  induction readable with
  | @literal kind text meaningful =>
    cases kind with
    | boolean => exact stands_ok _
    | _ => exact (printed_stands (.literal meaningful)).bind fun _ => stands_refuse _
  | path =>
    refine (located_stands entity _).bind fun _ => ?_
    exact stands_if (stands_ok _) (stands_refuse _)
  | not _ ih => exact ih.bind fun _ => stands_ok _
  | @binary op left right first second ih jh =>
    cases op with
    | connective op => exact ih.bind fun _ => jh.bind fun _ => stands_ok _
    | comparison op => exact comparison_stands first second
    | arithmetic op => exact (printed_stands (.binary first second)).bind fun _ => stands_refuse _
  | @call name args each _ =>
    refine (functionNamed_stands name).bind fun function => ?_
    split
    · exact stands_refuse _
    · exact stringMatch_stands each
  | named value _ => exact (printed_stands (.named value)).bind fun _ => stands_refuse _
  | ordered value _ => exact (printed_stands (.ordered value)).bind fun _ => stands_refuse _

example (entity : Entity) : filter entity (.broken ()) = .error .broken := rfl

theorem compute_stands {done : List ComputeItem} {items : List TreeExpr}
    (each : ∀ item ∈ items, Readable item) : Stands (compute entity done items) := by
  induction items generalizing done with
  | nil => exact stands_ok _
  | cons item items ih =>
    rw [List.forall_mem_cons] at each
    cases each.1 with
    | named value =>
      refine stands_if (stands_refuse _) (stands_if (stands_refuse _) ?_)
      exact (operand_stands value).bind fun _ => ih each.2
    | _ => exact stands_refuse _

theorem orderBy_stands {number : Nat} {items : List TreeExpr}
    (each : ∀ item ∈ items, Readable item) : Stands (orderBy entity number items) := by
  induction items generalizing number with
  | nil => exact stands_ok _
  | cons item items ih =>
    rw [List.forall_mem_cons] at each
    cases each.1 with
    | ordered value =>
      refine (operand_stands value).bind fun _ => stands_if (stands_refuse _) ?_
      exact (ih each.2).bind fun _ => stands_ok _
    | _ => exact stands_refuse _

end Typing

end ClauseSql
