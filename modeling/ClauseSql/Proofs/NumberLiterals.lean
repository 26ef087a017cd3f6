import ClauseSql.Proofs.Relexing
import ClauseSql.Proofs.TypingRules
import Mathlib.Data.Nat.Digits.Defs

/-! The values of number literals. A literal without point and exponent consists of a sign, if any, and
digits, so it denotes an integer. That integer is its value, provided that it fits in 64 bits with a sign;
every other number becomes a double. -/
namespace ClauseSql

open Text Token Notation Lexing Typing

namespace Numeral

def denoted (digits : List Char) : Nat :=
  Nat.ofDigits 10 (digits.reverse.map fun c => c.toNat - '0'.toNat)

/-- The integer that a text denotes. There may be a sign in front of the digits, and any number of the
digits in front may be zeros. -/
inductive Denotes : List Char → Int → Prop
  | unsigned {digits : List Char} : digits ≠ [] → (∀ c ∈ digits, c.isDigit = true) →
      Denotes digits (denoted digits)
  | positive {digits : List Char} : digits ≠ [] → (∀ c ∈ digits, c.isDigit = true) →
      Denotes ('+' :: digits) (denoted digits)
  | negative {digits : List Char} : digits ≠ [] → (∀ c ∈ digits, c.isDigit = true) →
      Denotes ('-' :: digits) (-denoted digits)

def HasMark (text : List Char) : Prop := ∃ c ∈ text, c = '.' ∨ c = 'e' ∨ c = 'E'

theorem hasMark_iff {text : List Char} : HasMark text ↔ Value.looksFractional text = true := by
  simp [HasMark, Value.looksFractional, or_assoc]

theorem ofDigits_eq_denoted (digits : List Char) : ofDigits digits = denoted digits := by
  rw [denoted, Nat.ofDigits_eq_foldr, List.foldr_map, List.foldr_reverse]
  simp only [ofDigits, digitValue, Nat.cast_id]
  congr 1
  funext n c
  rw [add_comm]
  rfl

theorem areDigits_iff {digits : List Char} :
    areDigits digits = true ↔ digits ≠ [] ∧ ∀ c ∈ digits, c.isDigit = true := by
  simp [areDigits]

theorem integer?_of_denotes {text : List Char} {n : Int} (denotes : Denotes text n) :
    integer? text = some n := by
  cases denotes with
  | unsigned some digits =>
    have all := areDigits_iff.2 ⟨some, digits⟩
    rw [integer?, signed_of_digit (startsWith_digit all)]
    simp [all, ofDigits_eq_denoted]
  | positive some digits | negative some digits =>
    have all := areDigits_iff.2 ⟨some, digits⟩
    simp [integer?, signed, all, ofDigits_eq_denoted]

theorem digit_not_mark {c : Char} (digit : c.isDigit = true) : ¬ (c = '.' ∨ c = 'e' ∨ c = 'E') := by
  rintro (rfl | rfl | rfl) <;> cases digit

theorem Denotes.unmarked {text : List Char} {n : Int} (denotes : Denotes text n) : ¬ HasMark text := by
  rintro ⟨c, member, mark⟩
  cases denotes with
  | unsigned _ digits => exact digit_not_mark (digits c member) mark
  | positive _ digits | negative _ digits =>
    rcases List.mem_cons.1 member with rfl | inside
    · revert mark
      decide
    · exact digit_not_mark (digits c inside) mark

end Numeral

open Numeral

namespace Lexing

theorem areDigits_taken {cs : List Char} (digit : startsWith Char.isDigit cs = true)
    (formed : (Numeral.scan cs).wellFormed = true) (unmarked : ¬ HasMark (Numeral.scan cs).taken) :
    areDigits (Numeral.scan cs).taken = true := by
  obtain ⟨places, power, fraction, exponent, taken⟩ := numeral_shape formed
  rw [taken] at unmarked ⊢
  rcases fraction with rfl | ⟨_, rfl, _⟩
  · rcases exponent with rfl | ⟨mark, _, _, rfl, letter, _⟩
    · rw [List.append_nil, List.append_nil]
      exact digits_areDigits (digits_nonempty digit)
    · exact absurd ⟨mark, by simp, .inr letter⟩ unmarked
  · exact absurd ⟨'.', by simp, .inl rfl⟩ unmarked

theorem not_hasMark_tail {c : Char} {cs : List Char} (unmarked : ¬ HasMark (c :: cs)) : ¬ HasMark cs := by
  rintro ⟨mark, member, isMark⟩
  exact unmarked ⟨mark, List.mem_cons_of_mem c member, isMark⟩

theorem Found.denotes {c : Char} {cs tail : List Char} {kind : TokenKind} (found : Found c cs kind tail)
    (number : kind = .literal .number) (unmarked : ¬ HasMark (c :: tail)) :
    ∃ n, Denotes (c :: tail) n := by
  cases found with
  | openParen | closeParen | comma | string => cases number
  | signed sign digit formed =>
    obtain ⟨some, all⟩ := areDigits_iff.1 (areDigits_taken digit formed (not_hasMark_tail unmarked))
    rcases sign with rfl | rfl
    · exact ⟨_, .positive some all⟩
    · exact ⟨_, .negative some all⟩
  | signedFraction => exact absurd ⟨'.', by simp, .inl rfl⟩ unmarked
  | dated _ read =>
    cases number
    rcases (dated_isPrefix read).2 with date | dateTime
    · cases date
    · cases dateTime
  | number digit formed =>
    rw [numeral_cons digit formed] at unmarked ⊢
    have first : startsWith Char.isDigit (c :: cs) = true := digit
    obtain ⟨some, all⟩ := areDigits_iff.1 (areDigits_taken first formed unmarked)
    exact ⟨_, .unsigned some all⟩
  | name =>
    have member := nameKind_mem (c :: nameRest cs) (cs.drop (nameRest cs).length)
    rw [number] at member
    exact absurd member (by decide)

theorem tokenize_denotes {source : String} {ts : List Token} (lexed : tokenize source = .ok ts)
    {t : Token} (member : t ∈ ts) (number : t.kind = .literal .number) (unmarked : ¬ HasMark t.lexeme) :
    ∃ n, Denotes t.lexeme n := by
  rcases (tokenize_layout lexed).found t member with eof | ⟨c, tail, rest, lexeme, found⟩
  · cases eof.symm.trans number
  · rw [lexeme] at unmarked ⊢
    exact found.denotes number unmarked

end Lexing

namespace Value

theorem isInteger_iff {n : Int} : isInteger n = true ↔ -2 ^ 63 ≤ n ∧ n ≤ 2 ^ 63 - 1 := by
  have least : leastInteger = -2 ^ 63 := rfl
  have greatest : greatestInteger = 2 ^ 63 - 1 := rfl
  rw [isInteger, least, greatest, Bool.and_eq_true, decide_eq_true_iff, decide_eq_true_iff]

theorem number?_of_isInteger {text : List Char} {n : Int} (denotes : Denotes text n)
    (fits : isInteger n = true) : number? text = some (.integer n) := by
  have plain : looksFractional text = false := by
    rw [← Bool.not_eq_true, ← hasMark_iff]
    exact denotes.unmarked
  have kept : (integer? text).filter isInteger = some n := by
    rw [integer?_of_denotes denotes, Option.filter_some, if_pos fits]
  simp [number?, plain, kept]

theorem number?_float {text : List Char} {value : Value} (read : number? text = some value)
    (other : HasMark text ∨ ∃ n, Denotes text n ∧ isInteger n = false) :
    ∃ x, binary64? text = some x ∧ value = .float x := by
  have none : (if looksFractional text then none else (integer? text).filter isInteger) = none := by
    rcases other with mark | ⟨n, denotes, out⟩
    · rw [if_pos (hasMark_iff.1 mark)]
    · have dropped : (integer? text).filter isInteger = none := by
        rw [integer?_of_denotes denotes, Option.filter_some, out]
        rfl
      rw [dropped, ite_self]
  rw [number?, none] at read
  obtain ⟨x, read, equal⟩ := Option.map_eq_some_iff.1 read
  exact ⟨x, read, equal.symm⟩

end Value

/-- Every number literal of a source has a value. If it denotes an integer between the limits, its value
is that integer, and otherwise it is a double. It denotes an integer if it has neither a point nor an
exponent. -/
theorem integer_literals_are_exact {source : String} {ts : List Token} (lexed : tokenize source = .ok ts)
    {t : Token} (member : t ∈ ts) (number : t.kind = .literal .number) :
    ∃ value,
      (∀ entity, operand entity (.literal .number (slice? source.toList t.start t.stop)) =
        .ok (.literal value, .number)) ∧
      (¬ HasMark t.lexeme → ∃ n, Denotes t.lexeme n) ∧
      (∀ n, Denotes t.lexeme n →
        (-2 ^ 63 ≤ n ∧ n ≤ 2 ^ 63 - 1 → value = .integer n) ∧
        (¬ (-2 ^ 63 ≤ n ∧ n ≤ 2 ^ 63 - 1) → ∃ x, binary64? t.lexeme = some x ∧ value = .float x)) ∧
      (HasMark t.lexeme → ∃ x, binary64? t.lexeme = some x ∧ value = .float x) := by
  obtain ⟨value, read⟩ := Option.isSome_iff_exists.1 (tokenize_meaningful lexed member number)
  have typed : literalValue .number t.lexeme = .ok value := by simp only [literalValue, read]
  refine ⟨value, fun entity => ?_, tokenize_denotes lexed member number, fun n denotes => ?_,
    fun mark => Value.number?_float read (.inl mark)⟩
  · exact operand_literal.2 ⟨t.lexeme, tokenize_slice lexed t member, value, typed, by
      rw [literalValue_type typed]; rfl⟩
  · rw [← Value.isInteger_iff, Bool.not_eq_true]
    refine ⟨fun fits => ?_, fun out => Value.number?_float read (.inr ⟨n, denotes, out⟩)⟩
    exact Option.some.inj (read.symm.trans (Value.number?_of_isInteger denotes fits))

theorem integer_literals_are_exact_limits :
    let source := "-0009223372036854775808 lt +9223372036854775808"
    (∀ entity, operand entity (.literal .number (slice? source.toList 0 23)) =
      .ok (.literal (.integer (-9223372036854775808)), .number)) ∧
    ∃ x, ∀ entity, operand entity (.literal .number (slice? source.toList 27 47)) =
      .ok (.literal (.float x), .number) := by
  intro source
  let ts : List Token :=
    [⟨.literal .number, 0, "-0009223372036854775808".toList⟩,
      ⟨.operator (.comparison .lt), 24, "lt".toList⟩,
      ⟨.literal .number, 27, "+9223372036854775808".toList⟩, ⟨.eof, 47, []⟩]
  have lexed : tokenize source = .ok ts := by decide +kernel
  have digits : areDigits "9223372036854775808".toList = true := by decide
  have zeros : areDigits "0009223372036854775808".toList = true := by decide
  have least := Denotes.negative (areDigits_iff.1 zeros).1 (areDigits_iff.1 zeros).2
  have beyond := Denotes.positive (areDigits_iff.1 digits).1 (areDigits_iff.1 digits).2
  have same : denoted "0009223372036854775808".toList = 9223372036854775808 := by decide
  have same' : denoted "9223372036854775808".toList = 9223372036854775808 := by decide
  rw [same] at least
  rw [same'] at beyond
  constructor
  · obtain ⟨value, typed, -, exact, -⟩ :=
      integer_literals_are_exact lexed (t := ⟨.literal .number, 0, "-0009223372036854775808".toList⟩)
        (by simp [ts]) rfl
    obtain rfl := (exact _ least).1 (by decide)
    exact typed
  · obtain ⟨value, typed, -, exact, -⟩ :=
      integer_literals_are_exact lexed (t := ⟨.literal .number, 27, "+9223372036854775808".toList⟩)
        (by simp [ts]) rfl
    obtain ⟨x, -, rfl⟩ := (exact _ beyond).2 (by decide)
    exact ⟨x, typed⟩

end ClauseSql
