import ClauseSql.Expr.Printer
import ClauseSql.Proofs.LiteralValues
import Mathlib.Data.Char
import Mathlib.Data.List.TakeWhile
import Mathlib.Data.Option.Basic

/-! Tokens in another place. A literal, a name or a path that has been found in one text is found again
in any other, if what follows it there is a blank, a comma or a closing parenthesis, or nothing. A
function name is found again in front of an opening parenthesis. -/
namespace ClauseSql.Lexing

open Text Token

/-- The text is empty or begins with a mark behind which no word, number or date goes on. -/
def Parts (rest : List Char) : Prop := ∀ c ∈ rest.head?, c = ' ' ∨ c = ')' ∨ c = ','

theorem Parts.nil : Parts [] := nofun

theorem Parts.cons {c : Char} {rest : List Char} (mark : c = ' ' ∨ c = ')' ∨ c = ',') :
    Parts (c :: rest) := by
  rintro _ ⟨⟩
  exact mark

theorem Parts.startsWith {rest : List Char} (parts : Parts rest) {test : Char → Bool}
    (marks : test ' ' = false ∧ test ')' = false ∧ test ',' = false) :
    startsWith test rest = false := by
  cases rest with
  | nil => rfl
  | cons c rest =>
    obtain ⟨blank, paren, comma⟩ := marks
    obtain rfl | rfl | rfl := parts c rfl <;> assumption

theorem startsWith_append {test : Char → Bool} {as bs : List Char}
    (first : startsWith test as = false) (second : startsWith test bs = false) :
    startsWith test (as ++ bs) = false := by
  cases as with
  | nil => exact second
  | cons => exact first

theorem startsWith_mono {test weaker : Char → Bool} {cs : List Char}
    (none : startsWith weaker cs = false) (weaken : ∀ c, test c → weaker c) :
    startsWith test cs = false := by
  cases cs with
  | nil => rfl
  | cons c cs => exact Bool.eq_false_iff.2 fun holds => Bool.eq_false_iff.1 none (weaken c holds)

theorem continuesNumber_of_digit {c : Char} (digit : c.isDigit = true) : continuesNumber c = true := by
  simp [continuesNumber, isNameChar, Char.isAlphanum, digit]

theorem digits_eq {ds rest : List Char} (digits : Notation.areDigits ds = true)
    (apart : startsWith Char.isDigit rest = false) : Numeral.digits (ds ++ rest) = ds := by
  simp only [Notation.areDigits, Bool.and_eq_true] at digits
  exact takeWhile_append digits.2 apart

theorem areDigits_not_isEmpty {ds : List Char} (digits : Notation.areDigits ds = true) :
    ds.isEmpty = false := by
  simp only [Notation.areDigits, Bool.and_eq_true, Bool.not_eq_true'] at digits
  exact digits.1

def IsFraction (places : List Char) : Prop :=
  places = [] ∨ ∃ ds, places = '.' :: ds ∧ Notation.areDigits ds = true

theorem IsFraction.startsWith {places : List Char} (shape : IsFraction places) {test : Char → Bool}
    (other : test '.' = false) : startsWith test places = false := by
  obtain rfl | ⟨ds, rfl, -⟩ := shape
  · rfl
  · exact other

theorem IsFraction.scan {places rest : List Char} (shape : IsFraction places)
    (apart : Text.startsWith (fun c => c.isDigit || c == '.') rest = false) :
    Numeral.fraction (places ++ rest) = ⟨places, true⟩ := by
  obtain rfl | ⟨ds, rfl, digits⟩ := shape
  · cases rest with
    | nil => rfl
    | cons c rest =>
      have other : c ≠ '.' := by rintro rfl; cases apart
      simp [Numeral.fraction, other]
  · have same : Numeral.digits (ds ++ rest) = ds :=
      digits_eq digits (startsWith_mono apart (by simp +contextual))
    simp [Numeral.fraction, same, areDigits_not_isEmpty digits]

def IsExponent (power : List Char) : Prop :=
  power = [] ∨ ∃ mark sign ds, power = mark :: (sign ++ ds) ∧ (mark = 'e' ∨ mark = 'E') ∧
    (sign = [] ∨ sign = ['+'] ∨ sign = ['-']) ∧ Notation.areDigits ds = true

theorem exponent_isExponent {cs : List Char} (formed : (Numeral.exponent cs).wellFormed = true) :
    IsExponent (Numeral.exponent cs).taken := by
  cases cs with
  | nil => exact .inl rfl
  | cons c cs =>
    by_cases mark : c = 'e' ∨ c = 'E'
    · simp only [Numeral.exponent, mark, if_true, Bool.not_eq_true'] at formed ⊢
      refine .inr ⟨c, _, _, rfl, mark, ?_, digits_areDigits formed⟩
      cases cs with
      | nil => exact .inl rfl
      | cons s cs =>
        simp only [Numeral.sign]
        split
        · next sign => simpa using sign
        · exact .inl rfl
    · left
      simp only [Numeral.exponent, mark, if_false]

theorem IsExponent.startsWith {power : List Char} (shape : IsExponent power) {test : Char → Bool}
    (marks : test 'e' = false ∧ test 'E' = false) : startsWith test power = false := by
  obtain rfl | ⟨mark, sign, ds, rfl, rfl | rfl, -⟩ := shape
  · rfl
  · exact marks.1
  · exact marks.2

theorem IsExponent.scan {power rest : List Char} (shape : IsExponent power)
    (apart : Text.startsWith continuesNumber rest = false) :
    Numeral.exponent (power ++ rest) = ⟨power, true⟩ := by
  obtain rfl | ⟨mark, sign, ds, rfl, letter, signs, digits⟩ := shape
  · cases rest with
    | nil => rfl
    | cons c rest =>
      have other : ¬ (c = 'e' ∨ c = 'E') := by rintro (rfl | rfl) <;> cases apart
      simp only [List.nil_append, Numeral.exponent, other, if_false]
  · have read : Numeral.sign (sign ++ (ds ++ rest)) = sign := by
      obtain rfl | rfl | rfl := signs
      · cases ds with
        | nil => cases digits
        | cons d ds =>
          have digit := startsWith_digit digits
          have other : ¬ (d = '+' ∨ d = '-') := by rintro (rfl | rfl) <;> cases digit
          simp only [List.nil_append, List.cons_append, Numeral.sign, other, if_false]
      · rfl
      · rfl
    have same : Numeral.digits (ds ++ rest) = ds :=
      digits_eq digits (startsWith_mono apart fun _ => continuesNumber_of_digit)
    simp only [List.cons_append, List.append_assoc, Numeral.exponent, letter, if_true, read,
      List.drop_left, same, areDigits_not_isEmpty digits, Bool.not_false]

theorem numeral_shape {cs : List Char} (formed : (Numeral.scan cs).wellFormed = true) :
    ∃ places power, IsFraction places ∧ IsExponent power ∧
      (Numeral.scan cs).taken = Numeral.digits cs ++ (places ++ power) := by
  obtain ⟨later, last, fraction, exponent, taken⟩ := numeral_parts formed
  exact ⟨_, _, fraction_shape fraction, exponent_isExponent exponent, taken⟩

theorem numeral_scan {whole places power rest : List Char} (digits : whole.all Char.isDigit = true)
    (fraction : IsFraction places) (exponent : IsExponent power)
    (apart : startsWith continuesNumber rest = false) :
    Numeral.scan (whole ++ (places ++ (power ++ rest))) = ⟨whole ++ (places ++ power), true⟩ := by
  have digit : startsWith Char.isDigit rest = false :=
    startsWith_mono apart fun _ => continuesNumber_of_digit
  have point : startsWith (fun c => c.isDigit || c == '.') rest = false := by
    refine startsWith_mono apart fun c either => ?_
    obtain digit | point := Bool.or_eq_true_iff.1 either
    · exact continuesNumber_of_digit digit
    · simp [continuesNumber, point]
  have first : Numeral.digits (whole ++ (places ++ (power ++ rest))) = whole := by
    refine takeWhile_append digits (startsWith_append ?_ (startsWith_append ?_ digit))
    · exact fraction.startsWith (by decide)
    · exact exponent.startsWith (by decide)
  have second := fraction.scan (startsWith_append (exponent.startsWith (by decide)) point)
  have third := exponent.scan apart
  have drop : (whole ++ (places ++ (power ++ rest))).drop (whole ++ places).length = power ++ rest := by
    rw [← List.append_assoc, List.drop_left]
  have ending : (whole ++ (places ++ (power ++ rest))).drop (whole ++ (places ++ power)).length =
      rest := by
    rw [← List.append_assoc, ← List.append_assoc, ← List.append_assoc, List.drop_left]
  simp only [Numeral.scan, Numeral.Scan.andThen, first, List.drop_left, second, if_true, drop, third,
    ending, Numeral.ending, apart, Bool.not_false, List.append_nil, List.append_assoc]

theorem day?_digits {whole rest : List Char} (digits : whole.all Char.isDigit = true)
    (apart : startsWith (fun c => isDecimalDigit c || c == '-') rest = false) :
    Dated.day? (whole ++ rest) = none := by
  have stop {p : Char} {shape : List Char} (mark : p = '0' ∨ p = '-') :
      Dated.shaped? (p :: shape) rest = none := by
    cases rest with
    | nil => rfl
    | cons c rest =>
      have other : isDecimalDigit c = false ∧ (c == '-') = false := by simpa [startsWith] using apart
      obtain rfl | rfl := mark <;> simp [Dated.shaped?, other]
  -- A day has its first dash behind four digits.
  rcases whole with _ | ⟨_, _ | ⟨_, _ | ⟨_, _ | ⟨_, _ | ⟨d, ds⟩⟩⟩⟩⟩
  · exact stop (.inl rfl)
  · simp [Dated.day?, Dated.shaped?, stop]
  · simp [Dated.day?, Dated.shaped?, stop]
  · simp [Dated.day?, Dated.shaped?, stop]
  · simp [Dated.day?, Dated.shaped?, stop]
  · have other : (d == '-') = false := by
      simp only [List.all_cons, Bool.and_eq_true] at digits
      rw [beq_eq_false_iff_ne]
      rintro rfl
      cases digits.2.2.2.2.1
    simp [Dated.day?, Dated.shaped?, other]

theorem shaped?_length {shape cs taken : List Char} (read : Dated.shaped? shape cs = some taken) :
    taken.length = shape.length := by
  fun_induction Dated.shaped? shape cs generalizing taken with
  | case1 =>
    cases read
    rfl
  | case2 => cases read
  | case3 p ps c cs fits ih =>
    obtain ⟨more, found, rfl⟩ := Option.map_eq_some_iff.mp read
    exact congrArg (· + 1) (ih found)
  | case4 => cases read

theorem shaped?_again {shape cs taken : List Char} (read : Dated.shaped? shape cs = some taken)
    (rest : List Char) : Dated.shaped? shape (taken ++ rest) = some taken := by
  fun_induction Dated.shaped? shape cs generalizing taken with
  | case1 =>
    cases read
    rfl
  | case2 => cases read
  | case3 p ps c cs fits ih =>
    obtain ⟨more, found, rfl⟩ := Option.map_eq_some_iff.mp read
    rw [List.cons_append, Dated.shaped?, if_pos fits, ih found]
    rfl
  | case4 => cases read

theorem shaped?_none {p : Char} {shape rest : List Char} (zero : p ≠ '0')
    (apart : startsWith (· == p) rest = false) : Dated.shaped? (p :: shape) rest = none := by
  cases rest with
  | nil => rfl
  | cons c rest =>
    have other : (c == p) = false := apart
    simp [Dated.shaped?, zero, other]

theorem datedFraction_none {rest : List Char} (apart : startsWith (· == '.') rest = false) :
    Dated.fraction rest = [] := by
  cases rest with
  | nil => rfl
  | cons c rest =>
    have other : c ≠ '.' := by rintro rfl; cases apart
    simp [Dated.fraction, other]

theorem datedFraction_again (cs : List Char) {rest : List Char}
    (apart : startsWith (fun c => c == '.' || isDecimalDigit c) rest = false) :
    Dated.fraction (Dated.fraction cs ++ rest) = Dated.fraction cs := by
  obtain empty | ⟨places, taken, some, short, all⟩ := datedFraction_cases cs
  · rw [empty]
    exact datedFraction_none (startsWith_mono apart (by simp +contextual))
  · have same : (places ++ rest).takeWhile isDecimalDigit = places :=
      takeWhile_append all (startsWith_mono apart (by simp +contextual))
    rw [taken, List.cons_append, Dated.fraction, same, List.take_of_length_le short]
    exact if_pos ⟨rfl, some⟩

theorem seconds_again (cs : List Char) {rest : List Char}
    (apart : startsWith (fun c => c == ':' || c == '.' || isDecimalDigit c) rest = false) :
    Dated.seconds (Dated.seconds cs ++ rest) = Dated.seconds cs := by
  unfold Dated.seconds
  cases read : Dated.shaped? [':', '0', '0'] cs with
  | none =>
    have colon : startsWith (· == ':') rest = false := startsWith_mono apart (by simp +contextual)
    have none : Dated.shaped? [':', '0', '0'] rest = none := shaped?_none (by decide) colon
    simp [none]
  | some whole =>
    have same := shaped?_again read (Dated.fraction (cs.drop whole.length) ++ rest)
    have places := datedFraction_again (cs.drop whole.length)
      (startsWith_mono apart (by simp +contextual))
    simp only [List.append_assoc, same, List.drop_left, places]

theorem zone?_cases {cs zone : List Char} (read : Dated.zone? cs = some zone) :
    zone = ['Z'] ∨ ∃ sign cs offset, (sign = '+' ∨ sign = '-') ∧ zone = sign :: offset ∧
      Dated.shaped? ['0', '0', ':', '0', '0'] cs = some offset := by
  cases cs with
  | nil => cases read
  | cons c cs =>
    simp only [Dated.zone?] at read
    split at read
    · next zulu =>
      subst zulu
      exact .inl (Option.some.inj read).symm
    · split at read
      · next sign =>
        obtain ⟨offset, found, rfl⟩ := Option.map_eq_some_iff.mp read
        exact .inr ⟨c, cs, offset, sign, rfl, found⟩
      · cases read

theorem zone?_again {cs zone : List Char} (read : Dated.zone? cs = some zone) (rest : List Char) :
    Dated.zone? (zone ++ rest) = some zone := by
  obtain rfl | ⟨sign, cs, offset, mark, rfl, found⟩ := zone?_cases read
  · rfl
  · have other : sign ≠ 'Z' := by rintro rfl; simp at mark
    simp only [List.cons_append, Dated.zone?, other, if_false, mark, if_true, shaped?_again found]
    rfl

theorem time?_again {cs time : List Char} (read : Dated.time? cs = some time) (rest : List Char) :
    Dated.time? (time ++ rest) = some time := by
  obtain ⟨minutes, zone, whole, last, rfl⟩ := time?_cases read
  have mark : startsWith (fun c => c == ':' || c == '.' || isDecimalDigit c) (zone ++ rest) = false := by
    obtain rfl | ⟨sign, _, offset, rfl | rfl, rfl, -⟩ := zone?_cases last <;> rfl
  have first := shaped?_again whole (Dated.seconds (cs.drop minutes.length) ++ (zone ++ rest))
  have second := seconds_again (cs.drop minutes.length) mark
  have third := zone?_again last rest
  generalize Dated.seconds (cs.drop minutes.length) = seconds at first second ⊢
  have behind : (minutes ++ (seconds ++ (zone ++ rest))).drop (minutes ++ seconds).length =
      zone ++ rest := by
    rw [← List.append_assoc, List.drop_left]
  simp only [Dated.time?, List.append_assoc, first, Option.bind_eq_bind, Option.bind_some,
    List.drop_left, second, behind, third]
  rfl

theorem dated_again {cs lexeme rest : List Char} {kind : LiteralKind}
    (read : Dated.literal? cs = some (kind, lexeme))
    (follows : startsWith Dated.cannotFollow rest = false) :
    Dated.literal? (lexeme ++ rest) = some (kind, lexeme) := by
  have none : Dated.time? rest = none := by
    have apart : startsWith (· == 'T') rest = false := by
      refine startsWith_mono follows fun c mark => ?_
      obtain rfl := beq_iff_eq.1 mark
      rfl
    simp [Dated.time?, shaped?_none (by decide : 'T' ≠ '0') apart]
  obtain ⟨day, found, ⟨rfl, rfl⟩ | ⟨time, later, rfl, rfl⟩⟩ := dated_cases read
  · have again : Dated.day? (lexeme ++ rest) = some lexeme := shaped?_again found rest
    simp [Dated.literal?, Dated.longest?, again, none, follows]
  · have again : Dated.day? (day ++ (time ++ rest)) = some day := shaped?_again found (time ++ rest)
    simp [Dated.literal?, Dated.longest?, again, time?_again later rest, follows]

theorem dated_cons {c : Char} {cs lexeme : List Char} {kind : LiteralKind}
    (read : Dated.literal? (c :: cs) = some (kind, lexeme)) : c :: lexeme.tail = lexeme := by
  have some : lexeme ≠ [] := by
    rintro rfl
    obtain ⟨day, found, ⟨-, empty⟩ | ⟨time, -, -, empty⟩⟩ := dated_cases read
    · rw [← empty] at found
      cases shaped?_length found
    · rw [(List.append_eq_nil_iff.1 empty.symm).1] at found
      cases shaped?_length found
  obtain ⟨d, rest, rfl⟩ := List.exists_cons_of_ne_nil some
  rw [(List.cons_prefix_cons.1 (dated_isPrefix read).1).1, List.tail_cons]

theorem quotedRest?_again {cs body rest after : List Char}
    (read : quotedRest? cs = some (body, rest)) (apart : startsWith (· == '\'') after = false) :
    quotedRest? (body ++ after) = some (body, after) := by
  fun_induction quotedRest? cs generalizing body rest with
  | case1 => cases read
  | case2 cs ih =>
    obtain ⟨⟨inner, more⟩, found, equal⟩ := Option.map_eq_some_iff.mp read
    cases equal
    simp [quotedRest?, ih found]
  | case3 cs =>
    cases read
    cases after with
    | nil => rfl
    | cons c after =>
      have other : c ≠ '\'' := by rintro rfl; cases apart
      simp [quotedRest?, other]
  | case4 c cs pair single ih =>
    obtain ⟨⟨inner, more⟩, found, equal⟩ := Option.map_eq_some_iff.mp read
    cases equal
    rw [List.cons_append, quotedRest?, ih found]
    · rfl
    · exact fun _ quote _ => single quote
    · exact single

theorem nameRest_again (cs : List Char) {rest : List Char}
    (apart : startsWith (fun c => isNameChar c || c == '/') rest = false) :
    nameRest (nameRest cs ++ rest) = nameRest cs := by
  have none : nameRest rest = [] := by
    cases rest with
    | nil => rfl
    | cons c rest =>
      have other : isNameChar c = false ∧ (c == '/') = false := by simpa [startsWith] using apart
      simp [nameRest, other]
  induction cs with
  | nil => exact none
  | cons c cs ih =>
    by_cases goes : isNameChar c || (c == '/' && startsWith isNameStart cs)
    · have here : nameRest (c :: cs) = c :: nameRest cs := by rw [nameRest, if_pos goes]
      have still : isNameChar c || (c == '/' && startsWith isNameStart (nameRest cs ++ rest)) := by
        simp only [Bool.or_eq_true, Bool.and_eq_true] at goes ⊢
        refine goes.imp_right fun both => ⟨both.1, ?_⟩
        have next := both.2
        cases cs with
        | nil => cases next
        | cons d cs =>
          have letter : isNameStart d = true := next
          simpa [nameRest, isNameChar_of_start letter, startsWith] using letter
      rw [here, List.cons_append, nameRest, ih, if_pos still]
    · have here : nameRest (c :: cs) = [] := by rw [nameRest, if_neg goes]
      rw [here]
      exact none

theorem scan_digit {start : Nat} {c : Char} {cs : List Char} (digit : c.isDigit = true) :
    scan start c cs =
      (scanDigit start (c :: cs)).map fun (kind, lexeme) => (kind, lexeme.tail) := by
  have other {d : Char} (none : d.isDigit = false) : c ≠ d := by
    rintro rfl
    rw [none] at digit
    cases digit
  simp [scan, other, digit]

theorem scan_letter {start : Nat} {c : Char} {cs : List Char} (letter : isNameStart c = true) :
    scan start c cs = .ok (scanName c cs) := by
  have other {d : Char} (none : isNameStart d = false) : c ≠ d := by
    rintro rfl
    rw [none] at letter
    cases letter
  have marks : c ≠ '(' ∧ c ≠ ')' ∧ c ≠ ',' ∧ c ≠ '\'' ∧ c ≠ '+' ∧ c ≠ '-' :=
    ⟨other rfl, other rfl, other rfl, other rfl, other rfl, other rfl⟩
  simp [scan, marks, letter, isDigit_of_start letter]

theorem scan_sign {start : Nat} {c : Char} {cs : List Char} (sign : c = '+' ∨ c = '-') :
    scan start c cs = (scanSigned start c cs).map fun lexeme => (.literal .number, lexeme.tail) := by
  obtain rfl | rfl := sign <;> rfl

theorem isBlank_of_test {test : Char → Bool} {c : Char} (holds : test c = true)
    (blanks : test ' ' = false ∧ test '\t' = false ∧ test '\n' = false ∧ test '\x0c' = false ∧
      test '\r' = false) : isBlank c = false := by
  rw [Bool.eq_false_iff]
  intro blank
  simp only [isBlank, Bool.or_eq_true, beq_iff_eq] at blank
  obtain (((rfl | rfl) | rfl) | rfl) | rfl := blank <;> simp_all

theorem numeral_again {cs rest : List Char} (formed : (Numeral.scan cs).wellFormed = true)
    (apart : startsWith continuesNumber rest = false) :
    Numeral.scan ((Numeral.scan cs).taken ++ rest) = ⟨(Numeral.scan cs).taken, true⟩ := by
  obtain ⟨places, power, fraction, exponent, taken⟩ := numeral_shape formed
  rw [taken, List.append_assoc, List.append_assoc]
  exact numeral_scan List.all_takeWhile fraction exponent apart

theorem numeral_cons {c : Char} {cs : List Char} (digit : c.isDigit = true)
    (formed : (Numeral.scan (c :: cs)).wellFormed = true) :
    c :: (Numeral.scan (c :: cs)).taken.tail = (Numeral.scan (c :: cs)).taken := by
  obtain ⟨places, power, -, -, taken⟩ := numeral_shape formed
  simp [taken, Numeral.digits, digit]

theorem numeral_startsWith {cs : List Char} (formed : (Numeral.scan cs).wellFormed = true)
    (digit : startsWith Char.isDigit cs = true) (rest : List Char) :
    startsWith Char.isDigit ((Numeral.scan cs).taken ++ rest) = true := by
  cases cs with
  | nil => cases digit
  | cons c cs =>
    rw [← numeral_cons digit formed]
    exact digit

theorem numeral_undated {cs rest : List Char} (formed : (Numeral.scan cs).wellFormed = true)
    (parts : Parts rest) : Dated.literal? ((Numeral.scan cs).taken ++ rest) = none := by
  obtain ⟨places, power, fraction, exponent, taken⟩ := numeral_shape formed
  have none : Dated.day? ((Numeral.scan cs).taken ++ rest) = none := by
    rw [taken, List.append_assoc, List.append_assoc]
    refine day?_digits List.all_takeWhile (startsWith_append ?_ (startsWith_append ?_ ?_))
    · exact fraction.startsWith (by decide)
    · exact exponent.startsWith (by decide)
    · exact parts.startsWith (by decide)
  simp [Dated.literal?, Dated.longest?, none]

theorem scanNumber_eq {start : Nat} {before cs taken : List Char}
    (read : Numeral.scan cs = ⟨taken, true⟩) : scanNumber start before cs = .ok (before ++ taken) := by
  simp [scanNumber, read]

theorem scanSigned_digit {start : Nat} {sign : Char} {cs : List Char}
    (digit : startsWith Char.isDigit cs = true) :
    scanSigned start sign cs = scanNumber start [sign] cs := by
  cases cs with
  | nil => cases digit
  | cons c cs => exact if_pos digit

theorem scanSigned_fraction {start : Nat} {sign : Char} {cs rest : List Char}
    (digit : startsWith Char.isDigit cs = true) (apart : startsWith continuesNumber rest = false) :
    scanSigned start sign ('.' :: (Numeral.digits cs ++ rest)) =
      .ok (sign :: '.' :: Numeral.digits cs) := by
  have some : startsWith Char.isDigit (Numeral.digits cs ++ rest) = true := by
    cases cs with
    | nil => cases digit
    | cons c cs =>
      have first : c.isDigit = true := digit
      simp [Numeral.digits, first, startsWith]
  have same : Numeral.digits (Numeral.digits cs ++ rest) = Numeral.digits cs :=
    takeWhile_append List.all_takeWhile (startsWith_mono apart fun _ => continuesNumber_of_digit)
  have point : Char.isDigit '.' = false := by decide
  simp only [scanSigned, point, some, scanFraction, same, List.drop_left]
  cases rest with
  | nil => simp
  | cons c rest =>
    have other : continuesNumber c = false := apart
    simp [other]

/-- The scanner finds the text as one token of the kind, wherever it stands, if `rest` follows. -/
def Rescans (kind : TokenKind) (lexeme rest : List Char) : Prop :=
  ∃ c tail, lexeme = c :: tail ∧ isBlank c = false ∧
    ∀ start, scan start c (tail ++ rest) = .ok (kind, tail)

theorem rescans_name {c : Char} (cs : List Char) {rest : List Char} (letter : isNameStart c = true)
    (apart : startsWith (fun c => isNameChar c || c == '/') rest = false) :
    Rescans (nameKind (c :: nameRest cs) rest) (c :: nameRest cs) rest := by
  refine ⟨c, nameRest cs, rfl, isBlank_of_test letter (by decide), fun start => ?_⟩
  rw [scan_letter letter]
  simp only [scanName, nameRest_again cs apart, List.drop_left]

def standsAlone : TokenKind → Bool
  | .literal _ => true
  | .identifier => true
  | .path => true
  | _ => false

theorem nameKind_alone {name before rest : List Char} (alone : standsAlone (nameKind name before) = true)
    (apart : startsWith (· == '(') rest = false) : nameKind name rest = nameKind name before := by
  unfold nameKind at alone ⊢
  split
  · rfl
  · next slash =>
    rw [if_neg slash] at alone
    cases found : Keyword.find? name with
    | some kind => rfl
    | none =>
      simp only [found, apart] at alone ⊢
      split at alone
      · cases alone
      · next other => rw [if_neg other]; rfl

theorem rescans_string {cs body after rest : List Char} (quoted : quotedRest? cs = some (body, after))
    (apart : startsWith (· == '\'') rest = false) : Rescans (.literal .string) ('\'' :: body) rest := by
  refine ⟨_, _, rfl, rfl, fun start => ?_⟩
  simp [scan, scanString, quotedRest?_again quoted apart, Except.map]

theorem isBlank_of_sign {c : Char} (sign : c = '+' ∨ c = '-') : isBlank c = false := by
  obtain rfl | rfl := sign <;> rfl

theorem rescans_signed {c : Char} {cs rest : List Char} (sign : c = '+' ∨ c = '-')
    (digit : startsWith Char.isDigit cs = true) (formed : (Numeral.scan cs).wellFormed = true)
    (apart : startsWith continuesNumber rest = false) :
    Rescans (.literal .number) (c :: (Numeral.scan cs).taken) rest := by
  refine ⟨_, _, rfl, isBlank_of_sign sign, fun start => ?_⟩
  rw [scan_sign sign, scanSigned_digit (numeral_startsWith formed digit rest),
    scanNumber_eq (numeral_again formed apart)]
  rfl

theorem rescans_signedFraction {c : Char} {cs rest : List Char} (sign : c = '+' ∨ c = '-')
    (digit : startsWith Char.isDigit cs = true) (apart : startsWith continuesNumber rest = false) :
    Rescans (.literal .number) (c :: '.' :: Numeral.digits cs) rest := by
  refine ⟨_, _, rfl, isBlank_of_sign sign, fun start => ?_⟩
  rw [scan_sign sign, List.cons_append, scanSigned_fraction digit apart]
  rfl

theorem rescans_dated {c : Char} {cs lexeme rest : List Char} {kind : LiteralKind}
    (digit : c.isDigit = true) (read : Dated.literal? (c :: cs) = some (kind, lexeme))
    (follows : startsWith Dated.cannotFollow rest = false) :
    Rescans (.literal kind) (c :: lexeme.tail) rest := by
  refine ⟨_, _, rfl, isBlank_of_test digit (by decide), fun start => ?_⟩
  rw [scan_digit digit, ← List.cons_append, dated_cons read, scanDigit, dated_again read follows]
  rfl

theorem rescans_number {c : Char} {cs rest : List Char} (digit : c.isDigit = true)
    (formed : (Numeral.scan (c :: cs)).wellFormed = true)
    (undated : Dated.literal? ((Numeral.scan (c :: cs)).taken ++ rest) = none)
    (apart : startsWith continuesNumber rest = false) :
    Rescans (.literal .number) (c :: (Numeral.scan (c :: cs)).taken.tail) rest := by
  refine ⟨_, _, rfl, isBlank_of_test digit (by decide), fun start => ?_⟩
  rw [scan_digit digit, ← List.cons_append, numeral_cons digit formed, scanDigit, undated,
    scanNumber_eq (numeral_again formed apart)]
  rfl

theorem Found.rescans {c : Char} {cs tail rest : List Char} {kind : TokenKind}
    (found : Found c cs kind tail) (alone : standsAlone kind = true) (parts : Parts rest) :
    Rescans kind (c :: tail) rest := by
  have apart : startsWith continuesNumber rest = false := parts.startsWith (by decide)
  cases found with
  | openParen => cases alone
  | closeParen => cases alone
  | comma => cases alone
  | string quoted => exact rescans_string quoted (parts.startsWith (by decide))
  | signed sign digit formed => exact rescans_signed sign digit formed apart
  | signedFraction sign digit => exact rescans_signedFraction sign digit apart
  | dated digit read => exact rescans_dated digit read (parts.startsWith (by decide))
  | number digit formed => exact rescans_number digit formed (numeral_undated formed parts) apart
  | @name c cs letter =>
    rw [← nameKind_alone alone (parts.startsWith (by decide))]
    exact rescans_name cs letter (parts.startsWith (by decide))

theorem nameKind_function {name before rest : List Char}
    (calls : nameKind name before = .functionName) : nameKind name ('(' :: rest) = .functionName := by
  unfold nameKind at calls ⊢
  split at calls
  · cases calls
  · next slash =>
    rw [if_neg slash]
    cases found : Keyword.find? name with
    | some kind => simpa only [found] using calls
    | none => rfl

theorem Found.rescans_function {c : Char} {cs tail rest : List Char} {kind : TokenKind}
    (found : Found c cs kind tail) (calls : kind = .functionName) :
    Rescans .functionName (c :: tail) ('(' :: rest) := by
  cases found with
  | @name c cs letter =>
    rw [← nameKind_function calls]
    exact rescans_name cs letter rfl
  | _ => cases calls

theorem rescans_word {c : Char} {tail word rest : List Char} (split : word = c :: tail)
    (letter : isNameStart c = true) (whole : nameRest tail = tail) (parts : Parts rest) :
    Rescans (nameKind word []) word rest := by
  subst split
  have found := rescans_name tail letter (parts.startsWith (by decide))
  have apart : startsWith (· == '(') rest = startsWith (· == '(') [] := parts.startsWith (by decide)
  rw [whole] at found
  simpa only [nameKind, apart] using found

theorem rescans_operator (op : BinaryOperator) {rest : List Char} (parts : Parts rest) :
    Rescans (.operator op) op.word.toList rest := by
  rcases op with op | op | op <;> cases op <;> exact rescans_word rfl rfl rfl parts

theorem rescans_not {rest : List Char} (parts : Parts rest) : Rescans .not "not".toList rest :=
  rescans_word rfl rfl rfl parts

theorem rescans_as {rest : List Char} (parts : Parts rest) : Rescans .asWord "as".toList rest :=
  rescans_word rfl rfl rfl parts

theorem rescans_direction (descending : Bool) {rest : List Char} (parts : Parts rest) :
    Rescans .identifier (Expr.directionText descending) rest := by
  cases descending <;> exact rescans_word rfl rfl rfl parts

/-- In front of `rest`, the text at the position is read as the given tokens. -/
def Lexes (position : Nat) (text : List Char) (ts : List Token) (rest : List Char) : Prop :=
  tokensFrom position (text ++ rest) = (tokensFrom (position + byteLength text) rest).map (ts ++ ·)

theorem tokensFrom_eq (position : Nat) (cs : List Char) :
    tokensFrom position cs =
      match cs.dropWhile isBlank with
      | [] => .ok [⟨.eof, position + byteLength (cs.takeWhile isBlank), []⟩]
      | c :: rest =>
        match scan (position + byteLength (cs.takeWhile isBlank)) c rest with
        | .error failure => .error failure.error
        | .ok (kind, tail) =>
          (tokensFrom (position + byteLength (cs.takeWhile isBlank) + byteLength (c :: tail))
            (rest.drop tail.length)).map
            (⟨kind, position + byteLength (cs.takeWhile isBlank), c :: tail⟩ :: ·) := by
  rw [tokensFrom]
  split
  · next visible => rw [visible]
  · next c rest visible =>
    simp only [visible]
    cases scan (position + byteLength (cs.takeWhile isBlank)) c rest with
    | error => rfl
    | ok found =>
      simp only [Token.stop, Token.length]
      cases tokensFrom (position + byteLength (cs.takeWhile isBlank) + byteLength (c :: found.2))
        (rest.drop found.2.length) <;> rfl

theorem Lexes.blanks {blanks : List Char} (blank : ∀ c ∈ blanks, isBlank c = true) (position : Nat)
    (rest : List Char) : Lexes position blanks [] rest := by
  have same : tokensFrom position (blanks ++ rest) = tokensFrom (position + byteLength blanks) rest := by
    rw [tokensFrom_eq, tokensFrom_eq (position + byteLength blanks), List.takeWhile_append_of_pos blank,
      List.dropWhile_append_of_pos blank, byteLength_append, Nat.add_assoc]
  rw [Lexes, same]
  cases tokensFrom (position + byteLength blanks) rest <;> rfl

theorem Lexes.blank (position : Nat) (rest : List Char) : Lexes position [' '] [] rest :=
  .blanks (by simp [isBlank]) position rest

theorem Lexes.token {kind : TokenKind} {lexeme rest : List Char} (again : Rescans kind lexeme rest)
    (position : Nat) : Lexes position lexeme [⟨kind, position, lexeme⟩] rest := by
  obtain ⟨c, tail, rfl, visible, scanned⟩ := again
  rw [Lexes, List.cons_append, tokensFrom_eq]
  simp only [List.dropWhile_cons, List.takeWhile_cons, visible, byteLength_nil, Nat.add_zero, scanned,
    List.drop_left, Bool.false_eq_true, if_false]
  rfl

theorem Lexes.append {position : Nat} {first second rest : List Char} {ts us : List Token}
    (left : Lexes position first ts (second ++ rest))
    (right : Lexes (position + byteLength first) second us rest) :
    Lexes position (first ++ second) (ts ++ us) rest := by
  rw [Lexes, List.append_assoc, left, right, byteLength_append, Nat.add_assoc]
  cases tokensFrom (position + (byteLength first + byteLength second)) rest with
  | error => rfl
  | ok => simp [Except.map]

theorem Lexes.tokenize {text : List Char} {ts : List Token} (lexes : Lexes 0 text ts []) :
    tokenize (String.ofList text) = .ok (ts ++ [⟨.eof, byteLength text, []⟩]) := by
  rw [Lexes, List.append_nil, Nat.zero_add] at lexes
  rw [Token.tokenize, String.toList_ofList, lexes, tokensFrom_eq]
  rfl

end ClauseSql.Lexing
