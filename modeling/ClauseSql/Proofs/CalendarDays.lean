import ClauseSql.Proofs.FixedWidth
import Mathlib.Tactic.IntervalCases

/-! Days as text. A date of four, two and two digits is read exactly if it names a day of the Gregorian
calendar, carried back before its introduction, and the day is written with the same digits. -/
namespace ClauseSql

open Text Token Notation Typing

namespace Gregorian

def IsLeap (year : Nat) : Prop := 4 ∣ year ∧ (100 ∣ year → 400 ∣ year)

instance (year : Nat) : Decidable (IsLeap year) := inferInstanceAs (Decidable (_ ∧ _))

def months (year : Nat) : List Nat :=
  [31, if IsLeap year then 29 else 28, 31, 30, 31, 30, 31, 31, 30, 31, 30, 31]

def IsDay (year month day : Nat) : Prop :=
  1 ≤ month ∧ 1 ≤ day ∧ ∃ length, (months year)[month - 1]? = some length ∧ day ≤ length

/-- The text names a day, with four digits for the year and two each for the month and the day. -/
def NamesDay (text : List Char) : Prop :=
  ∃ year month day ys ms ds, FixedWidth 4 year ys ∧ FixedWidth 2 month ms ∧ FixedWidth 2 day ds ∧
    text = ys ++ '-' :: (ms ++ '-' :: ds) ∧ IsDay year month day

theorem IsDay.bounds {year month day : Nat} (isDay : IsDay year month day) :
    (1 ≤ month ∧ month ≤ 12) ∧ 1 ≤ day ∧ day ≤ 31 := by
  obtain ⟨first, some, length, listed, short⟩ := isDay
  have place : month - 1 < 12 := (List.getElem?_eq_some_iff.1 listed).1
  have longest : length ≤ 31 := by
    have all : ∀ length ∈ months year, length ≤ 31 := by
      by_cases leap : IsLeap year <;> simp [months, leap]
    exact all length (List.mem_of_getElem? listed)
  omega

theorem isLeap_iff (year : Nat) : IsLeap year ↔ Date.isLeapYear year = true := by
  simp only [IsLeap, Date.isLeapYear, Bool.and_eq_true, Bool.or_eq_true, beq_iff_eq, bne_iff_ne]
  omega

theorem isDay_iff {year month day : Nat} (covered : year < 10000) :
    IsDay year month day ↔ (⟨year, month, day⟩ : Date).isDay = true := by
  have leap : IsLeap year = (Date.isLeapYear year = true) := propext (isLeap_iff year)
  have within : Date.firstYear ≤ (year : Int) ∧ (year : Int) ≤ Date.lastYear := by
    simp only [Date.firstYear, Date.lastYear]
    omega
  simp only [Date.isDay, Bool.and_eq_true, decide_eq_true_eq, within, true_and, Date.daysInMonth]
  by_cases known : 1 ≤ month ∧ month ≤ 12
  · simp only [IsDay, months, leap]
    obtain ⟨low, high⟩ := known
    interval_cases month <;> simp
  · -- There is no such month.
    constructor
    · intro isDay
      exact absurd isDay.bounds.1 known
    · rintro ⟨positive, short⟩
      split at short
      · omega
      · split at short <;> omega

end Gregorian

namespace Date

theorem skipSpaces_digit {c : Char} {cs : List Char} (digit : c.isDigit = true) :
    skipSpaces (c :: cs) = c :: cs := by
  have bounds := digit_bounds digit
  have apart : ∀ n ∈ spaces, n < 48 ∨ 57 < n := by decide
  have visible : isSpace c = false := by
    rw [isSpace, List.contains_eq_mem, decide_eq_false_iff_not]
    intro member
    have := apart _ member
    omega
  simp [skipSpaces, visible]

theorem skipSpaces_field {width n : Nat} {cs : List Char} (field : FixedWidth width n cs) (wide : 0 < width)
    (rest : List Char) : skipSpaces (cs ++ rest) = cs ++ rest := by
  cases cs with
  | nil =>
    have empty := field.length
    simp only [List.length_nil] at empty
    omega
  | cons c cs => exact skipSpaces_digit (field.digits c List.mem_cons_self)

theorem number_field {width n : Nat} {cs : List Char} (field : FixedWidth width n cs) (wide : 0 < width)
    (small : n ≤ numberLimit) (rest : List Char) :
    number (some width) (cs ++ rest) = .ok (n, rest) := by
  have run : ((cs ++ rest).takeWhile Char.isDigit).take width = cs := by
    rw [List.takeWhile_append_of_pos field.digits, List.take_left' field.length]
  cases cs with
  | nil =>
    have empty := field.length
    simp only [List.length_nil] at empty
    omega
  | cons c cs =>
    simp only [List.cons_append] at run ⊢
    simp only [number, run, field.read, small, if_true]
    simp

theorem twoDigits_eq_ok {n least greatest : Nat} {cs : List Char} (field : FixedWidth 2 n cs)
    {rest : List Char} {result : Nat × List Char} :
    twoDigits least greatest (cs ++ rest) = .ok result ↔
      (least ≤ n ∧ n ≤ greatest) ∧ (n, rest) = result := by
  have small := field.lt
  rw [twoDigits, number_field field (by decide) (by simp only [numberLimit]; omega) rest, Outcome.ok_bind]
  by_cases inside : least ≤ n ∧ n ≤ greatest
  · simp [inside]
  · simp [inside]

theorem readYear_field {n : Nat} {cs : List Char} (field : FixedWidth 4 n cs) (rest : List Char) :
    readYear (cs ++ rest) = .ok ((n : Int), rest) := by
  have small := field.lt
  have read := number_field field (by decide) (by simp only [numberLimit]; omega) rest
  cases cs with
  | nil => cases field.length
  | cons c cs =>
    have digit := field.digits c List.mem_cons_self
    have plus : c ≠ '+' := by rintro rfl; cases digit
    have minus : c ≠ '-' := by rintro rfl; cases digit
    simp only [List.cons_append, readYear, if_neg minus, if_neg plus, Outcome.bind_eq_ok, Outcome.map_eq_ok]
    refine ⟨(n, rest), ⟨(n, rest), read, rfl⟩, if_pos ?_⟩
    omega

theorem read_eq_ok {year month day : Nat} {ys ms ds : List Char} (first : FixedWidth 4 year ys)
    (second : FixedWidth 2 month ms) (third : FixedWidth 2 day ds) {date : Date} :
    read (ys ++ '-' :: (ms ++ '-' :: ds)) = .ok date ↔
      Gregorian.IsDay year month day ∧ date = ⟨year, month, day⟩ := by
  have last : skipSpaces ds = ds ++ [] := by
    rw [← skipSpaces_field third (by decide), List.append_nil]
  have isDay_iff : Gregorian.IsDay year month day ↔ _ := Gregorian.isDay_iff first.lt
  simp only [read, skipSpaces_field first (by decide), readYear_field first, Outcome.ok_bind, dash, if_true,
    skipSpaces_field second (by decide), Outcome.bind_eq_ok, twoDigits_eq_ok second]
  constructor
  · rintro ⟨_, ⟨-, rfl⟩, left, passed, _, found, checked⟩
    obtain rfl : ds = left := Except.ok.inj passed
    obtain ⟨-, rfl⟩ := (twoDigits_eq_ok third).1 (last ▸ found)
    simp only [List.isEmpty_nil, Bool.not_true, Bool.false_eq_true, if_false] at checked
    split at checked
    · next covered => exact ⟨isDay_iff.2 covered, (Except.ok.inj checked).symm⟩
    · cases checked
  · rintro ⟨isDay, rfl⟩
    refine ⟨_, ⟨isDay.bounds.1, rfl⟩, ds, rfl, _, last ▸ (twoDigits_eq_ok third).2 ⟨isDay.bounds.2, rfl⟩, ?_⟩
    simp only [List.isEmpty_nil, Bool.not_true, Bool.false_eq_true, if_false, isDay_iff.1 isDay, if_true]

theorem text_fields {year month day : Nat} {ys ms ds : List Char} (first : FixedWidth 4 year ys)
    (second : FixedWidth 2 month ms) (third : FixedWidth 2 day ds) :
    (⟨year, month, day⟩ : Date).text = ys ++ '-' :: (ms ++ '-' :: ds) := by
  have early : ¬ (9999 : Int) < year := by
    have := first.lt
    omega
  rw [first.eq_padded (by decide), second.eq_padded (by decide), third.eq_padded (by decide)]
  simp [text, yearText, early]

end Date

namespace Date

theorem read_of_shaped {text : List Char} {date : Date}
    (shaped : text ∈ Spelling.shown Char.isDigit Spelling.dayShape) (done : read text = .ok date) :
    Gregorian.NamesDay text ∧ date.text = text := by
  obtain ⟨year, month, day, ys, ms, ds, first, middle, last, rfl⟩ := Spelling.mem_dayShape.1 shaped
  obtain ⟨isDay, rfl⟩ := (read_eq_ok first middle last).1 done
  exact ⟨⟨year, month, day, ys, ms, ds, first, middle, last, rfl, isDay⟩, text_fields first middle last⟩

theorem read_of_namesDay {text : List Char} (named : Gregorian.NamesDay text) :
    ∃ date, read text = .ok date := by
  obtain ⟨year, month, day, ys, ms, ds, first, middle, last, rfl, isDay⟩ := named
  exact ⟨_, (read_eq_ok first middle last).2 ⟨isDay, rfl⟩⟩

end Date

theorem Typing.operand_date {entity : Entity} {text : List Char} {result : Operand × ValueType} :
    operand entity (.literal .date (some text)) = .ok result ↔
      ∃ date, Date.read text = .ok date ∧ result = (.literal (.date date), .date) := by
  rw [operand_literal]
  constructor
  · rintro ⟨_, same, value, typed, rfl⟩
    cases same
    obtain ⟨date, read, rfl⟩ := Outcome.map_eq_ok.1 typed
    exact ⟨date, dateOf_eq_ok.1 read, rfl⟩
  · rintro ⟨date, read, rfl⟩
    exact ⟨text, rfl, .date date, Outcome.map_eq_ok.2 ⟨date, dateOf_eq_ok.2 read, rfl⟩, rfl⟩

namespace Lexing

theorem Found.shaped {c : Char} {cs tail : List Char} {kind : TokenKind} (found : Found c cs kind tail)
    (date : kind = .literal .date) (ascii : ∀ d ∈ c :: tail, d.toNat < 128) :
    c :: tail ∈ Spelling.shown Char.isDigit Spelling.dayShape := by
  cases found with
  | dated _ read =>
    rw [dated_cons read] at ascii ⊢
    cases date
    obtain ⟨day, found, ⟨-, rfl⟩ | ⟨_, -, other, -⟩⟩ := dated_cases read
    · exact (Spelling.shown_ascii ascii _).1 (Spelling.shaped?_mask rfl found)
    · cases other
  | @name c cs _ =>
    have member := nameKind_mem (c :: nameRest cs) (cs.drop (nameRest cs).length)
    rw [date] at member
    exact absurd member (by decide)
  | _ => cases date

theorem tokenize_shaped {source : String} {ts : List Token} (lexed : tokenize source = .ok ts) {t : Token}
    (member : t ∈ ts) (date : t.kind = .literal .date) (ascii : ∀ c ∈ t.lexeme, c.toNat < 128) :
    t.lexeme ∈ Spelling.shown Char.isDigit Spelling.dayShape := by
  obtain ends | ⟨c, tail, rest, lexeme, found⟩ := (tokenize_layout lexed).found t member
  · rw [date] at ends
    cases ends
  · rw [lexeme] at ascii ⊢
    exact found.shaped date ascii

end Lexing

end ClauseSql
