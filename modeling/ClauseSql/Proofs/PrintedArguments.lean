import ClauseSql.CommandLine
import ClauseSql.Proofs.BoundNumbers
import ClauseSql.Proofs.LiteralMagnitudes

/-! Arguments as JSON. Every argument of a fragment is printed, and null is printed as null. An infinite
number is printed as null too, for JSON has no word for it; so the arguments can be told apart exactly if
no number literal of the expression is beyond the range of doubles. -/
namespace ClauseSql

open Outcome

def Token.InRange (t : Token) : Prop :=
  t.kind = .literal .number → ∃ q, Numeral.Measures t.lexeme q ∧ q < Binary64.limit

namespace Value

def Unbounded (value : Value) : Prop := ∃ x, value = .float x ∧ x.isFinite = false

theorem Unbounded.isNumber {value : Value} (unbounded : value.Unbounded) : value.isNumber = true := by
  obtain ⟨x, rfl, -⟩ := unbounded
  rfl

theorem toJson_eq_null_iff {value : Value} : value.toJson = .null ↔ value = .null ∨ value.Unbounded := by
  cases value with
  | float x => simp [toJson, Unbounded]
  | _ => simp [toJson, Unbounded]

end Value

namespace CommandLine

/-- An argument is printed as null exactly if it is null. -/
def NullsOnly (args : List Value) (printed : List Json) : Prop :=
  ∀ i : Nat, printed[i]? = some .null ↔ args[i]? = some .null

theorem nullsOnly_map_iff {args : List Value} :
    NullsOnly args (args.map Value.toJson) ↔ ∀ value ∈ args, ¬ value.Unbounded := by
  constructor
  · intro same value member unbounded
    obtain ⟨i, here⟩ := List.mem_iff_getElem?.1 member
    have null : args[i]? = some .null := by
      rw [← same i, List.getElem?_map, here, Option.map_some, Value.toJson_eq_null_iff.2 (.inr unbounded)]
    cases here.symm.trans null
    obtain ⟨x, equal, -⟩ := unbounded
    cases equal
  · intro bounded i
    rw [List.getElem?_map]
    cases here : args[i]? with
    | none => simp
    | some value =>
      have finite := bounded value (List.mem_of_getElem? here)
      simp [Value.toJson_eq_null_iff, finite]

theorem answer_eq_ok {d : Dialect} {entity : Entity} {clause : Clause} {expression : String} {json : Json}
    (done : answer d entity clause expression = .ok json) :
    ∃ args fields, Compiler.arguments clause d expression entity .default = .ok args ∧
      json = .object (("args", .array (args.map Value.toJson)) :: fields) := by
  cases clause with
  | filter | compute | orderBy =>
    obtain ⟨out, made, equal⟩ := bind_eq_ok.1 done
    cases equal
    exact ⟨out.args, _, map_eq_ok.2 ⟨out, made, rfl⟩, rfl⟩

theorem run_eq_ok {request : Request} {json : Json} :
    run request = .ok json ↔
      ∃ d entity, Dialect.ofName? request.dialect = some d ∧ Entity.parse request.entity = some entity ∧
        entity.validate = .ok () ∧ answer d entity request.clause request.expression = .ok json := by
  simp only [run]
  cases Dialect.ofName? request.dialect with
  | none => simp
  | some d =>
    cases Entity.parse request.entity with
    | none => simp
    | some entity =>
      cases valid : entity.validate <;> simp [valid]

theorem unbounded_iff {ts : List Token} {source : String} (lexed : Token.tokenize source = .ok ts)
    {t : Token} (member : t ∈ ts) (number : t.isNumber = true) {value : Value}
    (read : Value.number? t.lexeme = some value) : value.Unbounded ↔ ¬ t.InRange := by
  have kind : t.kind = .literal .number := by simpa [Token.isNumber] using number
  obtain ⟨q, measures⟩ := Lexing.tokenize_measures lexed member kind
  rw [Value.Unbounded, Numeral.number?_infinite_iff measures read]
  constructor
  · intro large within
    obtain ⟨r, other, small⟩ := within kind
    exact absurd ((Numeral.number?_infinite_iff other read).1
      ((Numeral.number?_infinite_iff measures read).2 large)) (not_le.2 small)
  · intro outside
    by_contra small
    exact outside fun _ => ⟨q, measures, not_le.1 small⟩

/-- A request that succeeds prints all arguments of its fragment. If the number literals of the expression
are within the range of doubles, an argument is printed as null only if it is null. Conversely one literal
out of range is printed as null, as long as the tree can tell its nodes apart. -/
theorem arguments_print_nulls_only_iff_in_range {request : Request} {json : Json}
    (done : run request = .ok json) :
    ∃ d entity args printed fields ts,
      Dialect.ofName? request.dialect = some d ∧ Entity.parse request.entity = some entity ∧
      Compiler.arguments request.clause d request.expression entity .default = .ok args ∧
      json = .object (("args", .array printed) :: fields) ∧ printed.length = args.length ∧
      Token.tokenize request.expression = .ok ts ∧
      ((∀ t ∈ ts, t.InRange) → NullsOnly args printed) ∧
      (ts.length ≤ 2 ^ 32 → NullsOnly args printed → ∀ t ∈ ts, t.InRange) := by
  obtain ⟨d, entity, named, parsed, -, answered⟩ := run_eq_ok.1 done
  obtain ⟨args, fields, compiled, rfl⟩ := answer_eq_ok answered
  obtain ⟨ts, _, _, lexed, -⟩ := Compiler.arguments_items compiled
  have pool : Pool.default.Reachable := .ofCapacity _
  refine ⟨d, entity, args, args.map Value.toJson, fields, ts, named, parsed, compiled, rfl, by simp,
    lexed, ?_, ?_⟩
  · rw [nullsOnly_map_iff]
    intro within value member unbounded
    obtain ⟨t, among, number, read⟩ :=
      (Compiler.number_mem_arguments lexed pool compiled unbounded.isNumber).1 member
    exact (unbounded_iff lexed among number read).1 unbounded (within t among)
  · rw [nullsOnly_map_iff]
    intro few bounded t among
    by_contra outside
    have kind : t.kind = .literal .number := by
      by_contra other
      exact outside fun number => absurd number other
    have number : t.isNumber = true := by simp [Token.isNumber, kind]
    obtain ⟨value, read⟩ := Option.isSome_iff_exists.1 (Lexing.tokenize_meaningful lexed among kind)
    have unbounded := (unbounded_iff lexed among number read).2 outside
    exact bounded value
      ((Compiler.number_mem_arguments lexed pool compiled unbounded.isNumber).2 few t among number read)
      unbounded

theorem arguments_print_nulls_only_iff_in_range_compute :
    let request : Request :=
      { entity := "\x7b\"name\":\"Product\",\"properties\":\x7b\x7d\x7d"
        clause := .compute
        expression := "null as None,0.5 as Half" }
    ∃ printed fields, run request = .ok (.object (("args", .array printed) :: fields)) ∧
      NullsOnly [.null, .float ⟨0x3fe0000000000000⟩] printed := by
  intro request
  obtain ⟨json, done⟩ : ∃ json, run request = .ok json := by
    have fine : (run request).isOk = true := by decide +kernel
    cases ran : run request with
    | ok json => exact ⟨json, rfl⟩
    | error problem => rw [ran] at fine; cases fine
  obtain ⟨d, entity, args, printed, fields, ts, named, parsed, compiled, rfl, -, lexed, nulls, -⟩ :=
    arguments_print_nulls_only_iff_in_range done
  have dialect : Dialect.ofName? "sqlite" = some .sqlite := by decide +kernel
  cases dialect.symm.trans named
  have values : (Entity.parse request.entity).map
      (Compiler.arguments .compute .sqlite "null as None,0.5 as Half" · .default) =
        some (.ok [.null, .float ⟨0x3fe0000000000000⟩]) := by
    decide +kernel
  rw [parsed, Option.map_some, compiled] at values
  cases values
  refine ⟨printed, fields, done, nulls ?_⟩
  have numbers : (Token.tokenize "null as None,0.5 as Half").map (fun ts =>
      decide (∀ t ∈ ts, t.kind = .literal .number → t.lexeme = ['0', '.', '5'])) = .ok true := by
    decide +kernel
  rw [lexed] at numbers
  intro t among number
  rw [of_decide_eq_true (Except.ok.inj numbers) t among number]
  have places : Numeral.Places ['.', '5'] (Numeral.denoted ['5'] / 10 ^ 1) :=
    @Numeral.Places.some ['5'] (by simp) (List.forall_mem_singleton.2 rfl)
  have half := @Numeral.Measures.number [] ['0'] _ [] _ 0 (by simp) (List.forall_mem_singleton.2 rfl)
    (by simp) places .none
  have zero : Numeral.denoted ['0'] = 0 := rfl
  have five : Numeral.denoted ['5'] = 5 := rfl
  refine ⟨_, half, lt_of_le_of_lt ?_ (Binary64.two_pow_lt_limit (Nat.zero_le 970))⟩
  norm_num [zero, five]

/-- An infinite argument is printed as null. -/
theorem infinite_argument_prints_null :
    let request : Request :=
      { entity := "\x7b\"name\":\"Product\",\"properties\":\x7b\"Price\":\x7b\"kind\":\"primitive\"," ++
          "\"column_name\":\"price\",\"sql_type\":\"decimal\"\x7d\x7d\x7d"
        clause := .filter
        expression := "Price eq 1e999" }
    (Entity.parse request.entity).map
        (Compiler.arguments request.clause .sqlite request.expression · .default) =
      some (.ok [.float (.infinity false)]) ∧
    output .badRequest (run request) =
      ⟨0, "\x7b\n  \"args\": [\n    null\n  ],\n  \"sql\": \"price = ?\"\n\x7d\n", ""⟩ := by
  decide +kernel

end CommandLine

end ClauseSql
