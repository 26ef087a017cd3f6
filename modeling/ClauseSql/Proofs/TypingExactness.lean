import ClauseSql.Proofs.Erasure
import ClauseSql.Proofs.WellTyped

/-! Conditions and clauses, said without the work of typing. Typing accepts exactly these, and the
models that it gives are well typed. -/
namespace ClauseSql

open Outcome Typing

def IsMatch (entity : Entity) (e : TreeExpr) : Prop :=
  ∃ function kind target pattern,
    MatchCall e function kind [target, .literal .string (some pattern)] ∧
      HasType entity target .string

def CallsMatch (e : TreeExpr) : Prop := ∃ function kind args, MatchCall e function kind args

def IsNull (e : TreeExpr) : Prop := ∃ text, e = .literal .null text

/-- Whether a text can be taken for a value of the given type. A date will do for a date-time, but
not the other way round. -/
def ReadsAs (text : String) : ValueType → Prop
  | .date => ∃ date, Date.read text.toList = .ok date
  | .dateTime =>
    (∃ moment, Moment.read? text.toList = some moment) ∨ ∃ date, Date.read text.toList = .ok date
  | _ => False

def Spells (e : TreeExpr) (other : ValueType) : Prop :=
  ∃ quoted text, e = .literal .string (some quoted) ∧ unquote? quoted = some text ∧
    ReadsAs text other

def Comparable (left right : TreeExpr) (s t : ValueType) : Prop :=
  s = .null ∨ t = .null ∨ (s.isTemporal = true ∧ t.isTemporal = true) ∨ s = t ∨
    Spells left t ∨ Spells right s

inductive IsCondition (entity : Entity) : TreeExpr → Prop
  | connective {op : Connective} {left right : TreeExpr} : IsCondition entity left →
      IsCondition entity right → IsCondition entity (.binary (.connective op) left right)
  | not {inner : TreeExpr} : IsCondition entity inner → IsCondition entity (.not inner)
  | boolean {text : List Char} : IsCondition entity (.literal .boolean (some text))
  | path {text : List Char} {found : Located} : entity.resolve (String.ofList text) = .ok found →
      found.type = .boolean → IsCondition entity (.path (some text))
  | stringMatch {e : TreeExpr} : IsMatch entity e → IsCondition entity e
  | matchEquated {op : Comparison} {e : TreeExpr} {text : List Char} : op = .eq ∨ op = .ne →
      IsMatch entity e → IsCondition entity (.binary (.comparison op) e (.literal .boolean (some text)))
  | equatedMatch {op : Comparison} {e : TreeExpr} {text : List Char} : op = .eq ∨ op = .ne →
      IsMatch entity e → IsCondition entity (.binary (.comparison op) (.literal .boolean (some text)) e)
  | comparison {op : Comparison} {left right : TreeExpr} {s t : ValueType} :
      ¬ CallsMatch left → ¬ CallsMatch right → HasType entity left s → HasType entity right t →
      ¬ (IsNull left ∧ IsNull right) → Comparable left right s t →
      IsCondition entity (.binary (.comparison op) left right)

inductive Filter.WellTyped (entity : Entity) : Filter → Prop
  | comparison {op : Comparison} {left right : Operand} {s t : ValueType} :
      left.HasType entity s → right.HasType entity t → (left.isNull && right.isNull) = false →
      s.comparable t = true → WellTyped entity (.comparison op.operator left right)
  | stringMatch {kind : StringMatch} {target : Operand} {pattern : String} :
      target.HasType entity .string → WellTyped entity (.stringMatch kind.operator target pattern)
  | logical {op : Connective} {left right : Filter} : WellTyped entity left →
      WellTyped entity right → WellTyped entity (.logical op.operator left right)
  | not {inner : Filter} : WellTyped entity inner → WellTyped entity (.not inner)
  | constant {value : Bool} : WellTyped entity (.constant value)

section Conditions

variable {entity : Entity}

theorem stringMatch_sound {e : TreeExpr} {function : Function} {kind : StringMatch}
    {args : List TreeExpr} {f : Filter} (called : MatchCall e function kind args)
    (typed : stringMatch entity function kind args = .ok f) :
    IsMatch entity e ∧ f.WellTyped entity := by
  obtain ⟨target, pattern, text, value, rfl, read, _, rfl⟩ := stringMatch_eq_ok.1 typed
  have sound := operand_sound read
  exact ⟨⟨function, kind, target, pattern, called, sound.1⟩, .stringMatch sound.2⟩

theorem stringMatch_complete {e : TreeExpr} (isMatch : IsMatch entity e) (lexed : Lexed e) :
    ∃ function kind args f, MatchCall e function kind args ∧
      stringMatch entity function kind args = .ok f := by
  obtain ⟨function, kind, target, pattern, ⟨name, rfl, named⟩, typed⟩ := isMatch
  cases lexed with
  | call _ args =>
    cases args with
    | cons first others =>
      cases others with
      | cons second _ =>
        cases second with
        | literal meaningful =>
          obtain ⟨value, read⟩ := operand_complete typed first
          obtain ⟨text, unquoted⟩ := Option.isSome_iff_exists.1 (meaningful _ rfl)
          exact ⟨function, kind, _, _, ⟨name, rfl, named⟩, stringMatch_eq_ok.2
            ⟨target, pattern, text, value, rfl, read, unquoted, rfl⟩⟩

theorem negation_eq_ok {function : Function} {op : Comparison} {expected : Bool} :
    (∃ negated, negation function op expected = .ok negated) ↔ op = .eq ∨ op = .ne := by
  cases op <;> simp [negation]

theorem fold?_sound {call other : TreeExpr} {op : Comparison} {f : Filter}
    (folded : fold? entity call op other = .ok (some f)) :
    (op = .eq ∨ op = .ne) ∧ IsMatch entity call ∧ (∃ text, other = .literal .boolean (some text)) ∧
      f.WellTyped entity := by
  obtain ⟨function, kind, args, text, negated, matched, called, rfl, sense, typed, rfl⟩ :=
    fold?_some.1 folded
  obtain ⟨isMatch, wellTyped⟩ := stringMatch_sound called typed
  refine ⟨negation_eq_ok.1 ⟨negated, sense⟩, isMatch, ⟨text, rfl⟩, ?_⟩
  cases negated
  · exact wellTyped
  · exact .not wellTyped

theorem fold?_complete {call : TreeExpr} {op : Comparison} {text : List Char}
    (equated : op = .eq ∨ op = .ne) (isMatch : IsMatch entity call) (lexed : Lexed call) :
    ∃ f, fold? entity call op (.literal .boolean (some text)) = .ok (some f) := by
  obtain ⟨function, kind, args, matched, called, typed⟩ := stringMatch_complete isMatch lexed
  obtain ⟨negated, sense⟩ := (@negation_eq_ok function op (isTrue text)).2 equated
  exact ⟨_, fold?_some.2 ⟨function, kind, args, text, negated, matched, called, rfl, sense, typed, rfl⟩⟩

theorem coerce_plain {a : Operand} (plain : ∀ text, a ≠ .literal (.text text)) (s t : ValueType) :
    coerce a s t = .ok (a, s) := by
  unfold coerce
  split
  · next text => exact absurd rfl (plain text)
  · rfl

theorem coerce_other (a : Operand) (s : ValueType) {t : ValueType} (other : t.isTemporal = false) :
    coerce a s t = .ok (a, s) := by
  unfold coerce
  split
  · cases t <;> first | rfl | cases other
  · rfl

theorem ReadsAs.temporal {text : String} {t : ValueType} (read : ReadsAs text t) :
    t.isTemporal = true := by
  cases t <;> first | rfl | cases read

theorem coerce_text {text : String} {s t : ValueType} (temporal : t.isTemporal = true) :
    (∃ a s', coerce (.literal (.text text)) s t = .ok (a, s')) ↔ ReadsAs text t := by
  cases t with
  | date => simp [coerce, ReadsAs]
  | dateTime => cases moment : Moment.read? text.toList <;> simp [coerce, moment, ReadsAs]
  | _ => cases temporal

theorem coerce_typed {a a' : Operand} {s s' t : ValueType} (typed : a.HasType entity s)
    (done : coerce a s t = .ok (a', s')) : a'.HasType entity s' := by
  rcases coerce_cases done with ⟨rfl, rfl, _⟩ | ⟨text, v, rfl, rfl, rfl, _⟩
  · exact typed
  · exact .literal

theorem coerce_isNull {a a' : Operand} {s s' t : ValueType} (done : coerce a s t = .ok (a', s')) :
    a'.isNull = a.isNull := by
  rcases coerce_cases done with ⟨rfl, rfl, _⟩ | ⟨text, v, rfl, rfl, rfl, temporal⟩
  · rfl
  · cases v <;> first | rfl | cases temporal

theorem operand_text {e : TreeExpr} {text : String} {s : ValueType} :
    operand entity e = .ok (.literal (.text text), s) ↔
      ∃ quoted, e = .literal .string (some quoted) ∧ unquote? quoted = some text ∧ .string = s := by
  constructor
  · intro typed
    obtain ⟨kind, quoted, rfl, read, rfl⟩ := literal_of_operand typed
    have type := literalValue_type read
    cases kind with
    | string => exact ⟨quoted, rfl, by simpa [literalValue] using read, rfl⟩
    | _ => cases type
  · rintro ⟨quoted, rfl, unquoted, rfl⟩
    exact operand_literal.2 ⟨quoted, rfl, .text text, by simp [literalValue, unquoted], rfl⟩

theorem spells_text {e : TreeExpr} {text : String} {s t : ValueType}
    (typed : operand entity e = .ok (.literal (.text text), s)) : Spells e t ↔ ReadsAs text t := by
  obtain ⟨quoted, rfl, unquoted, rfl⟩ := operand_text.1 typed
  constructor
  · rintro ⟨other, word, same, reread, spelt⟩
    cases same
    obtain rfl := Option.some.inj (unquoted.symm.trans reread)
    exact spelt
  · intro read
    exact ⟨quoted, text, rfl, unquoted, read⟩

theorem not_spells {e : TreeExpr} {a : Operand} {s t : ValueType}
    (typed : operand entity e = .ok (a, s)) (plain : ∀ text, a ≠ .literal (.text text)) :
    ¬ Spells e t := by
  rintro ⟨quoted, text, rfl, unquoted, _⟩
  have other : operand entity (.literal .string (some quoted)) = .ok (.literal (.text text), .string) :=
    operand_text.2 ⟨quoted, rfl, unquoted, rfl⟩
  rw [typed] at other
  cases other
  exact plain text rfl

theorem comparable_iff {s t : ValueType} :
    s.comparable t = true ↔
      s = .null ∨ t = .null ∨ (s.isTemporal = true ∧ t.isTemporal = true) ∨ s = t := by
  cases s <;> cases t <;> decide

theorem coerce_text_temporal {text : String} {a : Operand} {s s' t : ValueType}
    (temporal : t.isTemporal = true) (done : coerce (.literal (.text text)) s t = .ok (a, s')) :
    s'.isTemporal = true := by
  rcases coerce_cases done with ⟨_, _, plain | other⟩ | ⟨_, v, _, _, rfl, given⟩
  · exact absurd rfl (plain text)
  · rw [temporal] at other
    cases other
  · exact given

/-- What becomes of the two sides of a comparison. -/
def Fits (a b : Operand) (s t : ValueType) : Prop :=
  ∃ a' s', coerce a s t = .ok (a', s') ∧ ∃ b' t', coerce b t s' = .ok (b', t') ∧
    s'.comparable t' = true

theorem fits_uncoerced {left right : TreeExpr} {a b : Operand} {s t : ValueType}
    (first : coerce a s t = .ok (a, s)) (second : coerce b t s = .ok (b, t))
    (unspelt : ¬ Spells left t) (unspelt' : ¬ Spells right s) :
    Fits a b s t ↔ Comparable left right s t := by
  have fits : Fits a b s t ↔ s.comparable t = true := by
    constructor
    · rintro ⟨a', s', coerced, b', t', coerced', fit⟩
      cases first.symm.trans coerced
      cases second.symm.trans coerced'
      exact fit
    · intro fit
      exact ⟨a, s, first, b, t, second, fit⟩
  simp only [fits, comparable_iff, Comparable, unspelt, unspelt', or_false]

theorem comparable_symm {left right : TreeExpr} {s t : ValueType} :
    Comparable left right s t ↔ Comparable right left t s := by
  unfold Comparable
  rw [eq_comm (a := s) (b := t)]
  tauto

theorem not_spells_other {e : TreeExpr} {other : ValueType} (plain : other.isTemporal = false) :
    ¬ Spells e other := by
  rintro ⟨_, _, _, _, read⟩
  rw [read.temporal] at plain
  cases plain

theorem comparable_text {left right : TreeExpr} {word : String} {t : ValueType}
    (typed : operand entity left = .ok (.literal (.text word), .string))
    (temporal : t.isTemporal = true) : Comparable left right .string t ↔ ReadsAs word t := by
  have different : ValueType.string ≠ t := by
    rintro rfl
    cases temporal
  have proper : t ≠ .null := by
    rintro rfl
    cases temporal
  have none : ¬ Spells right .string := not_spells_other rfl
  have string : ValueType.string.isTemporal = false := rfl
  simp only [Comparable, spells_text typed, different, proper, none, string, reduceCtorEq, false_and,
    false_or, or_false]

/-- Both sides can be coerced to types that fit exactly if the sides are comparable. -/
theorem fits_iff {left right : TreeExpr} {a b : Operand} {s t : ValueType}
    (first : operand entity left = .ok (a, s)) (second : operand entity right = .ok (b, t)) :
    Fits a b s t ↔ Comparable left right s t := by
  by_cases text : ∃ word, a = .literal (.text word)
  · obtain ⟨word, rfl⟩ := text
    obtain ⟨_, _, _, rfl⟩ := operand_text.1 first
    cases temporal : t.isTemporal with
    | false =>
      exact fits_uncoerced (coerce_other _ _ temporal) (coerce_other _ _ rfl)
        (not_spells_other temporal) (not_spells_other rfl)
    | true =>
      have plain : ∀ other, b ≠ .literal (.text other) := by
        rintro other rfl
        obtain ⟨_, _, _, rfl⟩ := operand_text.1 second
        cases temporal
      rw [comparable_text first temporal, ← coerce_text temporal]
      constructor
      · rintro ⟨a', s', coerced, _⟩
        exact ⟨a', s', coerced⟩
      · rintro ⟨a', s', coerced⟩
        refine ⟨a', s', coerced, b, t, coerce_plain plain t s', comparable_iff.2 ?_⟩
        exact .inr (.inr (.inl ⟨coerce_text_temporal temporal coerced, temporal⟩))
  · have plain : ∀ word, a ≠ .literal (.text word) := fun word same => text ⟨word, same⟩
    by_cases text : ∃ word, b = .literal (.text word)
    · obtain ⟨word, rfl⟩ := text
      obtain ⟨_, _, _, rfl⟩ := operand_text.1 second
      cases temporal : s.isTemporal with
      | false =>
        exact fits_uncoerced (coerce_plain plain _ _) (coerce_other _ _ temporal)
          (not_spells_other rfl) (not_spells_other temporal)
      | true =>
        rw [comparable_symm, comparable_text second temporal, ← coerce_text temporal]
        constructor
        · rintro ⟨_, _, coerced, b', t', coerced', _⟩
          cases (coerce_plain plain s .string).symm.trans coerced
          exact ⟨b', t', coerced'⟩
        · rintro ⟨b', t', coerced⟩
          refine ⟨a, s, coerce_plain plain s .string, b', t', coerced, comparable_iff.2 ?_⟩
          exact .inr (.inr (.inl ⟨temporal, coerce_text_temporal temporal coerced⟩))
    · have other : ∀ word, b ≠ .literal (.text word) := fun word same => text ⟨word, same⟩
      exact fits_uncoerced (coerce_plain plain s t) (coerce_plain other t s) (not_spells first plain)
        (not_spells second other)

theorem operand_isNull {e : TreeExpr} {a : Operand} {s : ValueType}
    (typed : operand entity e = .ok (a, s)) : a.isNull = true ↔ IsNull e := by
  constructor
  · intro null
    match a with
    | .literal .null =>
      obtain ⟨kind, cs, rfl, read, _⟩ := literal_of_operand typed
      have type := literalValue_type read
      cases kind <;> first | exact ⟨_, rfl⟩ | cases type
  · rintro ⟨text, rfl⟩
    obtain ⟨_, _, _, read, equal⟩ := operand_literal.1 typed
    cases read
    cases equal
    rfl

theorem comparison_sound {op : Comparison} {left right : TreeExpr} {f : Filter}
    (typed : comparison entity op left right = .ok f) :
    IsCondition entity (.binary (.comparison op) left right) ∧ f.WellTyped entity := by
  rcases comparison_eq_ok.1 typed with folded | folded | values
  · obtain ⟨equated, isMatch, ⟨text, rfl⟩, wellTyped⟩ := fold?_sound folded
    exact ⟨.matchEquated equated isMatch, wellTyped⟩
  · obtain ⟨equated, isMatch, ⟨text, rfl⟩, wellTyped⟩ := fold?_sound folded
    exact ⟨.equatedMatch equated isMatch, wellTyped⟩
  · obtain ⟨a, s, b, t, first, second, notNull, a', s', coerced, b', t', coerced', fit, rfl⟩ := values
    have ih := operand_sound first
    have jh := operand_sound second
    have proper : ¬ (IsNull left ∧ IsNull right) := by
      rw [← operand_isNull first, ← operand_isNull second, ← Bool.and_eq_true, notNull]
      exact Bool.false_ne_true
    have comparable := (fits_iff first second).1 ⟨a', s', coerced, b', t', coerced', fit⟩
    refine ⟨.comparison ?_ ?_ ih.1 jh.1 proper comparable,
      .comparison (coerce_typed ih.2 coerced) (coerce_typed jh.2 coerced') ?_ fit⟩
    · rintro ⟨_, _, _, called⟩
      exact not_matchCall_of_operand first called
    · rintro ⟨_, _, _, called⟩
      exact not_matchCall_of_operand second called
    · rw [coerce_isNull coerced, coerce_isNull coerced', notNull]

theorem filter_sound {e : TreeExpr} {f : Filter} (typed : filter entity e = .ok f) :
    IsCondition entity e ∧ f.WellTyped entity := by
  match e with
  | .binary (.connective op) left right =>
    obtain ⟨a, first, b, second, rfl⟩ := filter_connective.1 typed
    have ih := filter_sound first
    have jh := filter_sound second
    exact ⟨.connective ih.1 jh.1, .logical ih.2 jh.2⟩
  | .binary (.comparison op) left right => exact comparison_sound typed
  | .not inner =>
    obtain ⟨a, read, rfl⟩ := filter_not.1 typed
    have ih := filter_sound read
    exact ⟨.not ih.1, .not ih.2⟩
  | .call _ _ =>
    obtain ⟨function, kind, called, typed⟩ := filter_call.1 typed
    obtain ⟨isMatch, wellTyped⟩ := stringMatch_sound called typed
    exact ⟨.stringMatch isMatch, wellTyped⟩
  | .path _ =>
    obtain ⟨path, rfl, found, resolved, boolean, rfl⟩ := filter_path.1 typed
    have read : (Operand.property (String.ofList path)).HasType entity .boolean :=
      boolean ▸ Operand.HasType.property resolved
    exact ⟨.path resolved boolean, @Filter.WellTyped.comparison entity .eq _ _ _ _ read .literal rfl rfl⟩
  | .literal .boolean _ =>
    obtain ⟨text, rfl, rfl⟩ := filter_boolean.1 typed
    exact ⟨.boolean, .constant⟩
  | .literal .string _ => cases mayBeCondition_of_filter typed
  | .literal .number _ => cases mayBeCondition_of_filter typed
  | .literal .date _ => cases mayBeCondition_of_filter typed
  | .literal .dateTime _ => cases mayBeCondition_of_filter typed
  | .literal .null _ => cases mayBeCondition_of_filter typed
  | .binary (.arithmetic _) _ _ => cases mayBeCondition_of_filter typed
  | .named _ _ => cases mayBeCondition_of_filter typed
  | .ordered _ _ => cases mayBeCondition_of_filter typed
  | .broken _ => cases mayBeCondition_of_filter typed
  | .brokenCall _ _ => cases mayBeCondition_of_filter typed

theorem filter_complete {e : TreeExpr} (condition : IsCondition entity e) (lexed : Lexed e) :
    ∃ f, filter entity e = .ok f := by
  induction condition with
  | connective _ _ ih jh =>
    cases lexed with
    | binary first second =>
      obtain ⟨a, ih⟩ := ih first
      obtain ⟨b, jh⟩ := jh second
      exact ⟨_, filter_connective.2 ⟨a, ih, b, jh, rfl⟩⟩
  | not _ ih =>
    cases lexed with
    | not inner =>
      obtain ⟨a, ih⟩ := ih inner
      exact ⟨_, filter_not.2 ⟨a, ih, rfl⟩⟩
  | boolean => exact ⟨_, filter_boolean.2 ⟨_, rfl, rfl⟩⟩
  | path resolved boolean => exact ⟨_, filter_path.2 ⟨_, rfl, _, resolved, boolean, rfl⟩⟩
  | stringMatch isMatch =>
    obtain ⟨function, kind, args, f, called, typed⟩ := stringMatch_complete isMatch lexed
    obtain ⟨name, rfl, named⟩ := called
    exact ⟨f, filter_call.2 ⟨function, kind, ⟨name, rfl, named⟩, typed⟩⟩
  | matchEquated equated isMatch =>
    cases lexed with
    | binary first _ =>
      obtain ⟨f, folded⟩ := fold?_complete equated isMatch first
      exact ⟨f, comparison_eq_ok.2 (.inl folded)⟩
  | equatedMatch equated isMatch =>
    cases lexed with
    | binary _ second =>
      obtain ⟨f, folded⟩ := fold?_complete equated isMatch second
      exact ⟨f, comparison_eq_ok.2 (.inr (.inl folded))⟩
  | comparison _ _ left right proper comparable =>
    cases lexed with
    | binary first second =>
      obtain ⟨a, ih⟩ := operand_complete left first
      obtain ⟨b, jh⟩ := operand_complete right second
      obtain ⟨a', s', coerced, b', t', coerced', fit⟩ := (fits_iff ih jh).2 comparable
      have notNull : (a.isNull && b.isNull) = false := by
        rw [Bool.eq_false_iff, Ne, Bool.and_eq_true, operand_isNull ih, operand_isNull jh]
        exact proper
      exact ⟨_, comparison_eq_ok.2 (.inr (.inr
        ⟨a, _, b, _, ih, jh, notNull, a', s', coerced, b', t', coerced', fit, rfl⟩))⟩

end Conditions

end ClauseSql
