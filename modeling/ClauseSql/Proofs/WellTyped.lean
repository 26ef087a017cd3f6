import ClauseSql.Proofs.LiteralValues
import ClauseSql.Proofs.StoredLikeness
import ClauseSql.Proofs.TypingRules

/-! What it means for an expression to have a type, said without the work of typing, and the same
for the operands of a model. An expression gets an operand exactly if it has a type, and then the
operand has the same type. -/
namespace ClauseSql

open Outcome Typing

def ValidLiteral (kind : LiteralKind) (text : List Char) : Prop :=
  match kind with
  | .date => ∃ date, Date.read text = .ok date
  | .dateTime => ∃ moment, Moment.read? text = some moment
  | _ => True

mutual
inductive HasType (entity : Entity) : TreeExpr → ValueType → Prop
  | path {text : List Char} {found : Located} : entity.resolve (String.ofList text) = .ok found →
      HasType entity (.path (some text)) found.type
  | literal {kind : LiteralKind} {text : List Char} : ValidLiteral kind text →
      HasType entity (.literal kind (some text)) kind.type
  | call {name : List Char} {function : Function} {args : List TreeExpr} :
      Function.ofName? name = some function → function.stringMatch? = none →
      function.signature.required.length ≤ args.length →
      args.length ≤ function.signature.required.length + function.signature.optional.length →
      Accepts entity function.signature.params args →
      HasType entity (.call (some name) args) function.signature.returns
  | arithmetic {op : Arithmetic} {left right : TreeExpr} : HasType entity left .number →
      HasType entity right .number → HasType entity (.binary (.arithmetic op) left right) .number
/-- Each argument has a type that its parameter accepts. Parameters may be left over. -/
inductive Accepts (entity : Entity) : List Param → List TreeExpr → Prop
  | nil {params : List Param} : Accepts entity params []
  | cons {param : Param} {params : List Param} {arg : TreeExpr} {args : List TreeExpr}
      {type : ValueType} : HasType entity arg type → param.accepts type = true →
      Accepts entity params args → Accepts entity (param :: params) (arg :: args)
end

mutual
inductive Operand.HasType (entity : Entity) : Operand → ValueType → Prop
  | property {path : String} {found : Located} : entity.resolve path = .ok found →
      Operand.HasType entity (.property path) found.type
  | literal {value : Value} : Operand.HasType entity (.literal value) value.type
  | call {function : Function} {args : List Operand} : function.stringMatch? = none →
      function.signature.required.length ≤ args.length →
      args.length ≤ function.signature.required.length + function.signature.optional.length →
      Operand.Accepts entity function.signature.params args →
      Operand.HasType entity (.call function args) function.signature.returns
  | arithmetic {op : Arithmetic} {left right : Operand} : Operand.HasType entity left .number →
      Operand.HasType entity right .number →
      Operand.HasType entity (.arithmetic op left right) .number
inductive Operand.Accepts (entity : Entity) : List Param → List Operand → Prop
  | nil {params : List Param} : Operand.Accepts entity params []
  | cons {param : Param} {params : List Param} {arg : Operand} {args : List Operand}
      {type : ValueType} : Operand.HasType entity arg type → param.accepts type = true →
      Operand.Accepts entity params args → Operand.Accepts entity (param :: params) (arg :: args)
end

theorem Signature.acceptsArity_iff {s : Signature} {count : Nat} :
    s.acceptsArity count = true ↔
      s.required.length ≤ count ∧ count ≤ s.required.length + s.optional.length := by
  simp [Signature.acceptsArity, Signature.params]

theorem validLiteral_of_value {kind : LiteralKind} {text : List Char} {value : Value}
    (read : literalValue kind text = .ok value) : ValidLiteral kind text := by
  cases kind with
  | date =>
    obtain ⟨date, read, _⟩ := map_eq_ok.1 read
    exact ⟨date, dateOf_eq_ok.1 read⟩
  | dateTime =>
    simp only [literalValue] at read
    split at read
    · next moment found => exact ⟨moment, found⟩
    · simp at read
  | _ => trivial

theorem literalValue_of_valid {kind : LiteralKind} {text : List Char}
    (valid : ValidLiteral kind text) (meaningful : Lexing.Meaningful kind text) :
    ∃ value, literalValue kind text = .ok value := by
  cases kind with
  | null | boolean => exact ⟨_, rfl⟩
  | string =>
    obtain ⟨inner, unquoted⟩ := Option.isSome_iff_exists.1 meaningful
    exact ⟨.text inner, by simp [literalValue, unquoted, readable, Except.map]⟩
  | number =>
    obtain ⟨value, read⟩ := Option.isSome_iff_exists.1 meaningful
    exact ⟨value, by simp [literalValue, read]⟩
  | date =>
    obtain ⟨date, read⟩ := valid
    exact ⟨.date date, by simp [literalValue, dateOf_eq_ok.2 read, Except.map]⟩
  | dateTime =>
    obtain ⟨moment, read⟩ := valid
    exact ⟨.moment moment, by simp [literalValue, read]⟩

section Soundness

variable {entity : Entity}

mutual
theorem operand_sound {e : TreeExpr} {o : Operand} {type : ValueType}
    (typed : operand entity e = .ok (o, type)) :
    HasType entity e type ∧ o.HasType entity type := by
  match e with
  | .path text =>
    obtain ⟨path, rfl, found, resolved, equal⟩ := operand_path.1 typed
    cases equal
    exact ⟨.path resolved, .property resolved⟩
  | .literal kind text =>
    obtain ⟨cs, rfl, value, read, equal⟩ := operand_literal.1 typed
    cases equal
    exact ⟨literalValue_type read ▸ .literal (validLiteral_of_value read), .literal⟩
  | .call text args =>
    obtain ⟨name, rfl, function, known, plain, arity, values, checked, equal⟩ := operand_call.1 typed
    obtain ⟨least, most⟩ := Signature.acceptsArity_iff.1 arity
    cases equal
    have params : 0 + args.length ≤ function.signature.params.length := by
      simpa [Signature.params] using most
    obtain ⟨accepted, fitting, length⟩ := arguments_sound checked params
    exact ⟨.call known plain least most accepted,
      .call plain (length ▸ least) (length ▸ most) fitting⟩
  | .binary (.arithmetic op) left right =>
    obtain ⟨a, _, first, b, _, second, rfl, rfl, equal⟩ := operand_arithmetic.1 typed
    cases equal
    have ih := operand_sound first
    have jh := operand_sound second
    exact ⟨.arithmetic ih.1 jh.1, .arithmetic ih.2 jh.2⟩
  | .binary (.comparison _) _ _ => cases isValue_of_operand typed
  | .binary (.connective _) _ _ => cases isValue_of_operand typed
  | .not _ => cases isValue_of_operand typed
  | .named _ _ => cases isValue_of_operand typed
  | .ordered _ _ => cases isValue_of_operand typed
  | .broken _ => cases isValue_of_operand typed
  | .brokenCall _ _ => cases isValue_of_operand typed
theorem arguments_sound {function : Function} {index : Nat} {args : List TreeExpr}
    {values : List Operand} (checked : arguments entity function index args = .ok values)
    (room : index + args.length ≤ function.signature.params.length) :
    Accepts entity (function.signature.params.drop index) args ∧
      Operand.Accepts entity (function.signature.params.drop index) values ∧
      args.length = values.length := by
  match args with
  | [] =>
    cases checked
    exact ⟨.nil, .nil, rfl⟩
  | arg :: args =>
    obtain ⟨value, type, typed, fits, values, more, rfl⟩ := arguments_cons.1 checked
    rw [List.length_cons] at room
    have index_lt : index < function.signature.params.length := by omega
    have ih := operand_sound typed
    obtain ⟨accepted, fitting, length⟩ := arguments_sound more (by omega)
    have param := fits _ (List.getElem?_eq_getElem index_lt)
    rw [List.drop_eq_getElem_cons index_lt]
    exact ⟨.cons ih.1 param accepted, .cons ih.2 param fitting, by simp [length]⟩
end

end Soundness

def lexedTexts : TextLikeness where
  literal kind a _ := ∀ text, a = some text → Lexing.Meaningful kind text
  name _ _ := True
  function _ _ := True

/-- An expression whose literals come from the lexer: it is like itself in these texts. -/
def Lexed (e : TreeExpr) : Prop := Expr.Alike lexedTexts e e

def LexedAll (es : List TreeExpr) : Prop := Expr.AlikeAll lexedTexts es es

section Completeness

variable {entity : Entity}

mutual
theorem operand_complete {e : TreeExpr} {type : ValueType} (typed : HasType entity e type)
    (lexed : Lexed e) : ∃ o, operand entity e = .ok (o, type) := by
  match typed with
  | .path resolved => exact ⟨_, operand_path.2 ⟨_, rfl, _, resolved, rfl⟩⟩
  | .literal valid =>
    cases lexed with
    | literal meaningful =>
      obtain ⟨value, read⟩ := literalValue_of_valid valid (meaningful _ rfl)
      exact ⟨_, operand_literal.2 ⟨_, rfl, value, read, by rw [literalValue_type read]⟩⟩
  | .call known plain least most accepted =>
    cases lexed with
    | call _ lexed =>
      obtain ⟨values, checked⟩ := arguments_complete accepted lexed 0 rfl
      exact ⟨_, operand_call.2 ⟨_, rfl, _, known, plain,
        Signature.acceptsArity_iff.2 ⟨least, most⟩, values, checked, rfl⟩⟩
  | .arithmetic left right =>
    cases lexed with
    | binary first second =>
      obtain ⟨a, ih⟩ := operand_complete left first
      obtain ⟨b, jh⟩ := operand_complete right second
      exact ⟨_, operand_arithmetic.2 ⟨a, _, ih, b, _, jh, rfl, rfl, rfl⟩⟩
theorem arguments_complete {function : Function} {params : List Param} {args : List TreeExpr}
    (accepted : Accepts entity params args) (lexed : LexedAll args) (index : Nat)
    (behind : function.signature.params.drop index = params) :
    ∃ values, arguments entity function index args = .ok values := by
  match accepted with
  | .nil => exact ⟨[], rfl⟩
  | @Accepts.cons _ param params _ _ type typed fits more =>
    cases lexed with
    | cons first others =>
      have here : function.signature.params[index]? = some param := by
        rw [← List.head?_drop, behind, List.head?_cons]
      have next : function.signature.params.drop (index + 1) = params := by
        rw [← List.tail_drop, behind, List.tail_cons]
      obtain ⟨value, ih⟩ := operand_complete typed first
      obtain ⟨values, jh⟩ := arguments_complete more others (index + 1) next
      refine ⟨_, arguments_cons.2 ⟨value, type, ih, fun found same => ?_, values, jh, rfl⟩⟩
      obtain rfl : param = found := Option.some.inj (here.symm.trans same)
      exact fits
end

end Completeness

end ClauseSql
