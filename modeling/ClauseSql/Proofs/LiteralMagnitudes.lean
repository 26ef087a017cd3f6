import ClauseSql.Proofs.DoubleRange
import ClauseSql.Proofs.NumberLiterals
import ClauseSql.Proofs.Spelling

/-! How large number literals are. The magnitude of a literal is denoted by its digits, its point and its
exponent. It becomes infinite if it is beyond the range of doubles, and in no other case. -/
namespace ClauseSql

open Text Token Notation Lexing

namespace Numeral

inductive Places : List Char → ℚ → Prop
  | none : Places [] 0
  | some {digits : List Char} : digits ≠ [] → (∀ c ∈ digits, c.isDigit = true) →
      Places ('.' :: digits) (denoted digits / 10 ^ digits.length)

inductive Power : List Char → Int → Prop
  | none : Power [] 0
  | some {mark : Char} {text : List Char} {n : Int} : mark = 'e' ∨ mark = 'E' → Denotes text n →
      Power (mark :: text) n

/-- The magnitude of the number that a text denotes. -/
inductive Measures : List Char → ℚ → Prop
  | number {sign whole places power : List Char} {fraction : ℚ} {n : Int} :
      sign = [] ∨ sign = ['+'] ∨ sign = ['-'] → (∀ c ∈ whole, c.isDigit = true) →
      whole ≠ [] ∨ places ≠ [] → Places places fraction → Power power n →
      Measures (sign ++ (whole ++ (places ++ power))) ((denoted whole + fraction) * 10 ^ n)

theorem denoted_append (first second : List Char) :
    denoted (first ++ second) = denoted first * 10 ^ second.length + denoted second := by
  simp [denoted, Nat.ofDigits_append, Nat.mul_comm, Nat.add_comm]

theorem Power.read {power : List Char} {n : Int} (shape : Power power n) : power? power = .some n := by
  cases shape with
  | none => rfl
  | some mark denotes => rw [power?, if_pos mark, integer?_of_denotes denotes]

theorem Power.startsWith {power : List Char} {n : Int} (shape : Power power n) {test : Char → Bool}
    (marks : test 'e' = false ∧ test 'E' = false) : startsWith test power = false := by
  cases shape with
  | none => rfl
  | some mark =>
    obtain rfl | rfl := mark
    · exact marks.1
    · exact marks.2

theorem decimal?_magnitude {whole places power : List Char} {fraction : ℚ} {n : Int}
    (digits : ∀ c ∈ whole, c.isDigit = true) (filled : whole ≠ [] ∨ places ≠ [])
    (behind : Places places fraction) (exponent : Power power n) :
    ∃ d, decimal? (whole ++ (places ++ power)) = .some d ∧
      (d.digits : ℚ) * 10 ^ d.power = (denoted whole + fraction) * 10 ^ n := by
  have ten : (10 : ℚ) ≠ 0 := by norm_num
  have all : whole.all Char.isDigit = true := List.all_eq_true.2 digits
  have stops : startsWith Char.isDigit power = false := exponent.startsWith (by decide)
  cases behind with
  | none =>
    have first : (whole ++ power).takeWhile Char.isDigit = whole := takeWhile_append all stops
    have some : whole.isEmpty = false := by simpa using filled
    refine ⟨⟨ofDigits whole, n⟩, ?_, by simp [ofDigits_eq_denoted]⟩
    have point : startsWith (· == '.') power = false := exponent.startsWith (by decide)
    simp only [decimal?, List.nil_append, first, List.drop_left, some]
    cases power with
    | nil => simp [exponent.read]
    | cons c cs =>
      have other : c ≠ '.' := by simpa [startsWith] using point
      simp [exponent.read, other]
  | @some ds more digits =>
    have first : (whole ++ '.' :: (ds ++ power)).takeWhile Char.isDigit = whole :=
      takeWhile_append all rfl
    have second : (ds ++ power).takeWhile Char.isDigit = ds :=
      takeWhile_append (List.all_eq_true.2 digits) stops
    refine ⟨⟨ofDigits (whole ++ ds), n - ds.length⟩, ?_, ?_⟩
    · simp [decimal?, first, second, exponent.read, more]
    · rw [ofDigits_eq_denoted, denoted_append, zpow_sub₀ ten, zpow_natCast]
      push_cast
      field_simp

theorem body_starts {whole places : List Char} {fraction : ℚ} (digits : ∀ c ∈ whole, c.isDigit = true)
    (filled : whole ≠ [] ∨ places ≠ []) (behind : Places places fraction) (power : List Char) :
    startsWith (fun c => c.isDigit || c == '.') (whole ++ (places ++ power)) = true := by
  cases whole with
  | cons c cs => simp [startsWith, digits c List.mem_cons_self]
  | nil =>
    cases behind with
    | none => simp at filled
    | some => rfl

theorem binary64?_body {body : List Char}
    (starts : startsWith (fun c => c.isDigit || c == '.') body = true) (sign : List Char)
    (split : (signed (sign ++ body)).2 = body) :
    binary64? (sign ++ body) =
      (decimal? body).map fun d => .ofDecimal (signed (sign ++ body)).1 d.digits d.power := by
  cases body with
  | nil => cases starts
  | cons c cs =>
    have same : c.toLower = c := by
      refine (Spelling.toLower_cases c).resolve_left fun upper => ?_
      have letter := isNameStart_of_upper upper
      obtain rfl : c = '.' := by simpa [startsWith, isDigit_of_start letter] using starts
      cases upper
    have other {w : List Char} {d : Char} (not : d.isDigit = false ∧ d ≠ '.') :
        String.ofList ((c :: cs).map Char.toLower) ≠ String.ofList (d :: w) := by
      intro equal
      rw [String.ofList_inj, List.map_cons, List.cons.injEq, same] at equal
      obtain ⟨rfl, -⟩ := equal
      simp [startsWith, not] at starts
    have inf : String.ofList ((c :: cs).map Char.toLower) ≠ "inf" := @other ['n', 'f'] 'i' (by decide)
    have infinity : String.ofList ((c :: cs).map Char.toLower) ≠ "infinity" :=
      @other "nfinity".toList 'i' (by decide)
    have nan : String.ofList ((c :: cs).map Char.toLower) ≠ "nan" := @other ['a', 'n'] 'n' (by decide)
    simp only [binary64?, split, inf, infinity, nan, or_self, if_false]

theorem binary64?_magnitude {text : List Char} {q : ℚ} (measures : Measures text q) :
    ∃ x, binary64? text = .some x ∧ (x.isFinite = true ↔ q < Binary64.limit) := by
  cases measures with
  | @number sign whole places power fraction n signs digits filled behind exponent =>
    have starts := body_starts digits filled behind power
    obtain ⟨d, read, value⟩ := decimal?_magnitude digits filled behind exponent
    generalize whole ++ (places ++ power) = body at starts read
    have split : (signed (sign ++ body)).2 = body := by
      obtain rfl | rfl | rfl := signs
      · cases body with
        | nil => cases starts
        | cons c cs =>
          have minus : c ≠ '-' := by rintro rfl; cases starts
          have plus : c ≠ '+' := by rintro rfl; cases starts
          simp [signed, minus, plus]
      · rfl
      · rfl
    refine ⟨_, by rw [binary64?_body starts sign split, read]; rfl, ?_⟩
    rw [Binary64.isFinite_ofDecimal, value]

theorem Measures.denotes {text : List Char} {q : ℚ} (measures : Measures text q)
    (unmarked : ¬ HasMark text) : ∃ n : Int, Denotes text n ∧ q = |n| := by
  cases measures with
  | @number sign whole places power fraction n signs digits filled behind exponent =>
    cases behind with
    | some => exact absurd ⟨'.', by simp, .inl rfl⟩ unmarked
    | none =>
      cases exponent with
      | @some mark _ _ letter => exact absurd ⟨mark, by simp, .inr letter⟩ unmarked
      | none =>
        have some : whole ≠ [] := by simpa using filled
        simp only [List.append_nil]
        obtain rfl | rfl | rfl := signs
        · exact ⟨_, .unsigned some digits, by simp⟩
        · exact ⟨_, .positive some digits, by simp⟩
        · exact ⟨_, .negative some digits, by simp⟩

/-- The value of a number literal is infinite exactly if its magnitude reaches the limit. -/
theorem number?_infinite_iff {text : List Char} {q : ℚ} {value : Value} (measures : Measures text q)
    (read : Value.number? text = .some value) :
    (∃ x, value = .float x ∧ x.isFinite = false) ↔ Binary64.limit ≤ q := by
  obtain ⟨x, float, finite⟩ := binary64?_magnitude measures
  have double (other : HasMark text ∨ ∃ n, Denotes text n ∧ Value.isInteger n = false) :
      (∃ x, value = .float x ∧ x.isFinite = false) ↔ Binary64.limit ≤ q := by
    obtain ⟨y, same, rfl⟩ := Value.number?_float read other
    cases float.symm.trans same
    rw [← not_lt, ← finite, Bool.not_eq_true]
    simp
  by_cases mark : HasMark text
  · exact double (.inl mark)
  obtain ⟨n, denotes, rfl⟩ := measures.denotes mark
  by_cases fits : Value.isInteger n = true
  · rw [Value.number?_of_isInteger denotes fits] at read
    cases read
    refine iff_of_false (by simp) (not_le.2 ?_)
    have bounds := Value.isInteger_iff.1 fits
    have small : |n| ≤ 2 ^ 63 := abs_le.2 ⟨by omega, by omega⟩
    refine lt_of_le_of_lt ?_ (Binary64.two_pow_lt_limit (by norm_num : 63 ≤ 970))
    exact_mod_cast small
  · exact double (.inr ⟨n, denotes, Bool.eq_false_iff.2 fits⟩)

end Numeral

namespace Lexing

open Numeral

theorem IsFraction.places {text : List Char} (shape : IsFraction text) :
    ∃ fraction, Places text fraction := by
  obtain rfl | ⟨ds, rfl, digits⟩ := shape
  · exact ⟨0, .none⟩
  · obtain ⟨some, all⟩ := areDigits_iff.1 digits
    exact ⟨_, .some some all⟩

theorem IsExponent.power {text : List Char} (shape : IsExponent text) : ∃ n, Power text n := by
  obtain rfl | ⟨mark, sign, ds, rfl, letter, signs, digits⟩ := shape
  · exact ⟨0, .none⟩
  · obtain ⟨some, all⟩ := areDigits_iff.1 digits
    obtain rfl | rfl | rfl := signs
    · exact ⟨_, .some letter (.unsigned some all)⟩
    · exact ⟨_, .some letter (.positive some all)⟩
    · exact ⟨_, .some letter (.negative some all)⟩

theorem numeral_measures {cs sign : List Char} (signs : sign = [] ∨ sign = ['+'] ∨ sign = ['-'])
    (digit : startsWith Char.isDigit cs = true) (formed : (Numeral.scan cs).wellFormed = true) :
    ∃ q, Measures (sign ++ (Numeral.scan cs).taken) q := by
  obtain ⟨places, power, fraction, exponent, taken⟩ := numeral_shape formed
  obtain ⟨_, behind⟩ := fraction.places
  obtain ⟨_, exponent⟩ := exponent.power
  obtain ⟨some, all⟩ := areDigits_iff.1 (digits_areDigits (digits_nonempty digit))
  rw [taken]
  exact ⟨_, .number signs all (.inl some) behind exponent⟩

theorem Found.measures {c : Char} {cs tail : List Char} {kind : TokenKind} (found : Found c cs kind tail)
    (number : kind = .literal .number) : ∃ q, Measures (c :: tail) q := by
  cases found with
  | openParen | closeParen | comma | string => cases number
  | signed sign digit formed =>
    have signs : [c] = [] ∨ [c] = ['+'] ∨ [c] = ['-'] := by simpa using sign
    exact numeral_measures signs digit formed
  | @signedFraction _ cs sign digit =>
    have signs : [c] = [] ∨ [c] = ['+'] ∨ [c] = ['-'] := by simpa using sign
    obtain ⟨some, all⟩ := areDigits_iff.1 (digits_areDigits (digits_nonempty digit))
    have none : ∀ d ∈ ([] : List Char), d.isDigit = true := by simp
    have measured := Measures.number signs none (.inr (by simp)) (.some some all) .none
    exact ⟨_, by simpa using measured⟩
  | dated _ read =>
    cases number
    rcases (dated_isPrefix read).2 with date | dateTime
    · cases date
    · cases dateTime
  | number digit formed =>
    have first : startsWith Char.isDigit (c :: cs) = true := digit
    rw [numeral_cons digit formed]
    exact numeral_measures (.inl rfl) first formed
  | name =>
    have member := nameKind_mem (c :: nameRest cs) (cs.drop (nameRest cs).length)
    rw [number] at member
    exact absurd member (by decide)

theorem tokenize_measures {source : String} {ts : List Token} (lexed : tokenize source = .ok ts)
    {t : Token} (member : t ∈ ts) (number : t.kind = .literal .number) : ∃ q, Measures t.lexeme q := by
  rcases (tokenize_layout lexed).found t member with eof | ⟨c, tail, rest, lexeme, found⟩
  · cases eof.symm.trans number
  · rw [lexeme]
    exact found.measures number

end Lexing

end ClauseSql
