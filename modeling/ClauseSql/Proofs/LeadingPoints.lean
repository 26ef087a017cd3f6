import ClauseSql.Proofs.LexErrors
import ClauseSql.Proofs.Separation

/-! Signed numbers that begin with a point. A number such as `-.5` may be written with a zero before its
point, and both spellings are read alike as long as the number ends with its digits. An exponent or a
word that hangs on to the digits tells them apart: only the longer spelling takes an exponent, and only
the longer one shows all of a malformed number. -/
namespace ClauseSql.Lexing

open Text Token

def withZero : List Char → List Char
  | [] => ['0']
  | sign :: rest => sign :: '0' :: rest

/-- The second answer is the first one for a source with a zero behind its sign: the tokens are of the
same kinds, and the first one or what is shown of it as malformed has got the zero. -/
def SameButZero : Except LexError (List Token) → Except LexError (List Token) → Prop
  | .ok ts, .ok us => us.map Token.kind = ts.map Token.kind ∧
      us.head?.map Token.lexeme = ts.head?.map (withZero ∘ Token.lexeme)
  | .error e, .error f => ∀ text longer : String, e = .malformedNumber 0 text →
      f = .malformedNumber 0 longer → longer.toList = withZero text.toList
  | _, _ => False

/-- What may stand behind the digits for both spellings to get the same answer. -/
inductive Harmless : List Char → Prop
  /-- The number ends. -/
  | ends {rest : List Char} : startsWith continuesNumber rest = false → Harmless rest
  /-- A single character hangs on to the number, so that both are malformed. -/
  | hangs {c : Char} {rest : List Char} : startsWith continuesNumber rest = false →
      (c = 'e' ∨ c = 'E' → Numeral.sign rest = []) → Harmless (c :: rest)
  /-- There is an exponent, and an error further back. -/
  | fails {power rest : List Char} {error : LexError} : IsExponent power → power ≠ [] →
      startsWith continuesNumber rest = false → tokenize (String.ofList rest) = .error error →
      Harmless (power ++ rest)

def completes (rest : List Char) : Bool :=
  (Numeral.exponent rest).wellFormed &&
    !startsWith continuesNumber (rest.drop (Numeral.exponent rest).taken.length)

section

variable {sign : Char} {ds rest : List Char} (signed : sign = '+' ∨ sign = '-')
  (digits : Notation.areDigits ds = true)

theorem startsWith_areDigits (digits : Notation.areDigits ds = true) (rest : List Char) :
    startsWith Char.isDigit (ds ++ rest) = true := by
  cases ds with
  | nil => cases digits
  | cons d ds =>
    simp only [Notation.areDigits, List.all_cons, Bool.and_eq_true] at digits
    exact digits.2.1

include digits

theorem numeral_zero (apart : startsWith Char.isDigit rest = false) :
    Numeral.scan ('0' :: '.' :: (ds ++ rest)) =
      ⟨'0' :: '.' :: (ds ++ (Numeral.exponent rest).taken), completes rest⟩ := by
  have whole : Numeral.digits ('0' :: '.' :: (ds ++ rest)) = ['0'] := rfl
  have places : Numeral.digits (ds ++ rest) = ds := digits_eq digits apart
  have fraction : Numeral.fraction ('.' :: (ds ++ rest)) = ⟨'.' :: ds, true⟩ := by
    simp [Numeral.fraction, places, areDigits_not_isEmpty digits]
  cases formed : (Numeral.exponent rest).wellFormed <;>
    simp [Numeral.scan, Numeral.Scan.andThen, whole, fraction, formed, Numeral.ending, completes]

omit digits

include signed

theorem tokensFrom_signed (cs : List Char) :
    tokensFrom 0 (sign :: cs) =
      match scanSigned 0 sign cs with
      | .error failure => .error failure.error
      | .ok lexeme =>
        (tokensFrom (byteLength (sign :: lexeme.tail)) (cs.drop lexeme.tail.length)).map
          (⟨.literal .number, 0, sign :: lexeme.tail⟩ :: ·) := by
  rw [tokensFrom_eq]
  simp only [List.dropWhile_cons, List.takeWhile_cons, isBlank_of_sign signed, Bool.false_eq_true,
    if_false, byteLength_nil, Nat.add_zero, Nat.zero_add, scan_sign signed]
  cases scanSigned 0 sign cs <;> rfl

include digits

theorem tokensFrom_point (apart : startsWith continuesNumber rest = false) :
    tokensFrom 0 (sign :: '.' :: (ds ++ rest)) =
      (tokensFrom (byteLength (sign :: '.' :: ds)) rest).map
        (⟨.literal .number, 0, sign :: '.' :: ds⟩ :: ·) := by
  have places : Numeral.digits (ds ++ rest) = ds :=
    digits_eq digits (startsWith_mono apart fun _ => continuesNumber_of_digit)
  have scanned := @scanSigned_fraction 0 sign (ds ++ rest) rest (startsWith_areDigits digits rest) apart
  rw [places] at scanned
  rw [tokensFrom_signed signed, scanned]
  simp

theorem tokensFrom_point_malformed {c : Char} (apart : c.isDigit = false)
    (goes : continuesNumber c = true) :
    tokensFrom 0 (sign :: '.' :: (ds ++ c :: rest)) =
      .error (.malformedNumber 0 (String.ofList (sign :: '.' :: (ds ++ [c])))) := by
  have places : Numeral.digits (ds ++ c :: rest) = ds := digits_eq digits apart
  have point : Char.isDigit '.' = false := by decide
  rw [tokensFrom_signed signed]
  simp [scanSigned, point, startsWith_areDigits digits, scanFraction, places, goes]

theorem tokensFrom_zero {power : List Char} (exponent : IsExponent power)
    (apart : startsWith continuesNumber rest = false) :
    tokensFrom 0 (sign :: '0' :: '.' :: (ds ++ (power ++ rest))) =
      (tokensFrom (byteLength (sign :: '0' :: '.' :: (ds ++ power))) rest).map
        (⟨.literal .number, 0, sign :: '0' :: '.' :: (ds ++ power)⟩ :: ·) := by
  have read : Numeral.scan ('0' :: '.' :: (ds ++ (power ++ rest))) = ⟨'0' :: '.' :: (ds ++ power), true⟩ :=
    @numeral_scan ['0'] ('.' :: ds) power rest rfl (.inr ⟨ds, rfl, digits⟩) exponent apart
  rw [tokensFrom_signed signed, scanSigned_digit rfl, scanNumber_eq read]
  simp

def hanging (rest : List Char) : List Char :=
  (Numeral.exponent rest).taken ++
    (rest.drop (Numeral.exponent rest).taken.length).takeWhile continuesNumber

theorem tokensFrom_zero_malformed (apart : startsWith Char.isDigit rest = false)
    (broken : completes rest = false) :
    tokensFrom 0 (sign :: '0' :: '.' :: (ds ++ rest)) =
      .error (.malformedNumber 0 (String.ofList (sign :: '0' :: '.' :: (ds ++ hanging rest)))) := by
  have read := numeral_zero digits apart
  rw [broken] at read
  rw [tokensFrom_signed signed, scanSigned_digit rfl, scanNumber, read]
  simp [Numeral.malformed, hanging]

omit signed digits

theorem takeWhile_eq_nil {test : Char → Bool} {cs : List Char} :
    cs.takeWhile test = [] ↔ startsWith test cs = false := by
  cases cs with
  | nil => simp [startsWith]
  | cons c cs => simp [startsWith]

theorem hanging_eq_singleton {c : Char} (goes : continuesNumber c = true) :
    hanging (c :: rest) = [c] ↔ startsWith continuesNumber rest = false ∧
      (c = 'e' ∨ c = 'E' → Numeral.sign rest = []) := by
  by_cases mark : c = 'e' ∨ c = 'E'
  · simp only [hanging, Numeral.exponent, mark, if_true, List.cons_append, List.cons.injEq, true_and,
      List.append_eq_nil_iff, List.length_cons, List.drop_succ_cons, forall_const]
    constructor
    · rintro ⟨⟨unsigned, none⟩, stops⟩
      rw [none, unsigned] at stops
      exact ⟨takeWhile_eq_nil.1 stops, unsigned⟩
    · rintro ⟨stops, unsigned⟩
      have none : Numeral.digits rest = [] :=
        takeWhile_eq_nil.2 (startsWith_mono stops fun _ => continuesNumber_of_digit)
      simpa [unsigned, none] using takeWhile_eq_nil.2 stops
  · have all : hanging (c :: rest) = c :: rest.takeWhile continuesNumber := by
      simp [hanging, Numeral.exponent, mark, goes]
    simp only [all, List.cons.injEq, true_and, takeWhile_eq_nil, mark, false_implies, and_true]

theorem tokensFrom_error_pos {n : Nat} {error : LexError} (positive : 0 < n)
    (failed : tokensFrom n rest = .error error) (text : String) : error ≠ .malformedNumber 0 text := by
  obtain ⟨front, c, more, -, failed⟩ := tokensFrom_failed failed
  rintro rfl
  have place : 0 = n + byteLength front := failed.position
  omega

theorem tokensFrom_fails_iff {n : Nat} :
    (∃ error, tokensFrom n rest = .error error) ↔
      ∃ error, tokenize (String.ofList rest) = .error error := by
  rw [tokenize, String.toList_ofList, ← Nat.zero_add n, tokensFrom_shift]
  cases tokensFrom 0 rest with
  | ok ts => simp [Except.map, Except.mapError]
  | error error => simp [Except.map, Except.mapError]

theorem harmless_exponent_iff {power : List Char} (exponent : IsExponent power) (some : power ≠ [])
    (apart : startsWith continuesNumber rest = false) :
    Harmless (power ++ rest) ↔ ∃ error, tokenize (String.ofList rest) = .error error := by
  constructor
  · intro harmless
    have scanned := exponent.scan apart
    generalize whole : power ++ rest = cs at harmless scanned
    cases harmless with
    | ends ends =>
      rw [← whole] at ends
      obtain rfl | ⟨mark, _, _, rfl, rfl | rfl, -, -⟩ := exponent
      · exact absurd rfl some
      · cases ends
      · cases ends
    | @hangs c after ends unsigned =>
      obtain rfl | ⟨mark, sign, ds, rfl, letter, signs, digits⟩ := exponent
      · exact absurd rfl some
      · rw [List.cons_append, List.append_assoc] at whole
        obtain ⟨rfl, rfl⟩ := List.cons.inj whole
        have none := unsigned letter
        obtain rfl | rfl | rfl := signs
        · have other : startsWith Char.isDigit (ds ++ rest) = false :=
            startsWith_mono ends fun _ => continuesNumber_of_digit
          rw [startsWith_areDigits digits rest] at other
          cases other
        · cases none
        · cases none
    | @fails other after error shape _ ends failed =>
      rw [shape.scan ends, Numeral.Scan.mk.injEq] at scanned
      obtain rfl : after = rest := by
        rw [scanned.1] at whole
        exact (List.append_cancel_left whole).symm
      exact ⟨error, failed⟩
  · rintro ⟨error, failed⟩
    exact .fails exponent some apart failed

theorem harmless_broken_iff {c : Char} (goes : continuesNumber c = true)
    (broken : completes (c :: rest) = false) :
    Harmless (c :: rest) ↔ hanging (c :: rest) = [c] := by
  rw [hanging_eq_singleton goes]
  constructor
  · intro harmless
    generalize whole : c :: rest = cs at harmless broken
    cases harmless with
    | ends ends =>
      rw [← whole] at ends
      exact absurd goes (Bool.eq_false_iff.1 ends)
    | hangs ends unsigned =>
      obtain ⟨rfl, rfl⟩ := List.cons.inj whole
      exact ⟨ends, unsigned⟩
    | fails exponent _ ends failed =>
      rw [completes, exponent.scan ends, List.drop_left, ends] at broken
      cases broken
  · rintro ⟨ends, unsigned⟩
    exact .hangs ends unsigned

include signed digits

theorem sameButZero_of_ends (ends : startsWith continuesNumber rest = false) :
    SameButZero (tokensFrom 0 (sign :: '.' :: (ds ++ rest)))
      (tokensFrom 0 (sign :: '0' :: '.' :: (ds ++ rest))) := by
  have longer := @tokensFrom_zero sign ds rest signed digits [] (.inl rfl) ends
  rw [List.append_nil, List.nil_append] at longer
  have further : byteLength (sign :: '0' :: '.' :: ds) = byteLength (sign :: '.' :: ds) + 1 := by
    rw [byteLength_cons, byteLength_cons, byteLength_cons, Nat.add_left_comm, Nat.add_comm]
    rfl
  rw [tokensFrom_point signed digits ends, longer, further, tokensFrom_shift]
  cases tokensFrom (byteLength (sign :: '.' :: ds)) rest with
  | ok ts =>
    refine ⟨?_, rfl⟩
    simp [Token.shift]
  | error error =>
    rintro text longer rfl shifted
    cases shifted

theorem sameButZero_exponent_iff {power : List Char} {error : LexError} (exponent : IsExponent power)
    (apart : startsWith continuesNumber rest = false) :
    SameButZero (.error error) (tokensFrom 0 (sign :: '0' :: '.' :: (ds ++ (power ++ rest)))) ↔
      ∃ error, tokenize (String.ofList rest) = .error error := by
  rw [tokensFrom_zero signed digits exponent apart,
    ← @tokensFrom_fails_iff rest (byteLength (sign :: '0' :: '.' :: (ds ++ power)))]
  cases found : tokensFrom (byteLength (sign :: '0' :: '.' :: (ds ++ power))) rest with
  | ok ts => simp [SameButZero, Except.map]
  | error later =>
    have positive : 0 < byteLength (sign :: '0' :: '.' :: (ds ++ power)) := by
      have first := sign.utf8Size_pos
      rw [byteLength_cons]
      omega
    refine iff_of_true ?_ ⟨later, rfl⟩
    intro _ longer _ same
    exact absurd same (tokensFrom_error_pos positive found longer)

theorem sameButZero_iff (apart : startsWith Char.isDigit rest = false) :
    SameButZero (tokensFrom 0 (sign :: '.' :: (ds ++ rest)))
      (tokensFrom 0 (sign :: '0' :: '.' :: (ds ++ rest))) ↔ Harmless rest := by
  by_cases ends : startsWith continuesNumber rest = false
  · exact iff_of_true (sameButZero_of_ends signed digits ends) (.ends ends)
  cases rest with
  | nil => exact absurd rfl ends
  | cons c rest =>
    have goes : continuesNumber c = true := by simpa [startsWith] using ends
    rw [tokensFrom_point_malformed signed digits apart goes]
    cases complete : completes (c :: rest) with
    | false =>
      rw [tokensFrom_zero_malformed signed digits apart complete, harmless_broken_iff goes complete]
      simp [SameButZero, withZero]
    | true =>
      rw [completes, Bool.and_eq_true, Bool.not_eq_true'] at complete
      obtain ⟨formed, stops⟩ := complete
      have exponent := exponent_isExponent formed
      obtain ⟨after, whole⟩ := exponent_isPrefix (c :: rest)
      generalize (Numeral.exponent (c :: rest)).taken = power at exponent stops whole
      rw [← whole] at ends stops ⊢
      rw [List.drop_left] at stops
      have some : power ≠ [] := by
        rintro rfl
        exact ends stops
      rw [sameButZero_exponent_iff signed digits exponent stops,
        harmless_exponent_iff exponent some stops]

end

/-- Both spellings of a signed number without whole part get the same answer exactly if what stands
behind its digits is harmless. -/
theorem leading_points_read_alike_iff {sign : Char} {digits : String} (suffix : String)
    (signed : sign = '+' ∨ sign = '-') (some : digits ≠ "")
    (all : ∀ c ∈ digits.toList, c.isDigit = true) :
    SameButZero (tokenize (sign.toString ++ "." ++ digits ++ suffix))
        (tokenize (sign.toString ++ "0." ++ digits ++ suffix)) ↔
      Harmless (suffix.toList.dropWhile Char.isDigit) := by
  -- All digits in front count, also those that the suffix begins with.
  have word : Notation.areDigits (digits.toList ++ suffix.toList.takeWhile Char.isDigit) = true := by
    simpa [Notation.areDigits, some] using all
  have apart : startsWith Char.isDigit (suffix.toList.dropWhile Char.isDigit) = false := by
    cases left : suffix.toList.dropWhile Char.isDigit with
    | nil => rfl
    | cons c rest => simpa [left, startsWith] using List.head?_dropWhile_not Char.isDigit suffix.toList
  have point : (sign.toString ++ "." ++ digits ++ suffix).toList = sign :: '.' ::
      (digits.toList ++ suffix.toList.takeWhile Char.isDigit ++ suffix.toList.dropWhile Char.isDigit) := by
    simp [Char.toString]
  have zero : (sign.toString ++ "0." ++ digits ++ suffix).toList = sign :: '0' :: '.' ::
      (digits.toList ++ suffix.toList.takeWhile Char.isDigit ++ suffix.toList.dropWhile Char.isDigit) := by
    simp [Char.toString]
  rw [tokenize, tokenize, point, zero]
  exact sameButZero_iff signed word apart

/-- A blank ends both spellings, and a single letter makes both malformed. -/
theorem leading_points_read_alike_blank_letter :
    ("5" ≠ "" ∧ ∀ c ∈ "5".toList, c.isDigit = true) ∧
    SameButZero (tokenize "-.50 eq Price") (tokenize "-0.50 eq Price") ∧
    SameButZero (tokenize "+.5e, Price") (tokenize "+0.5e, Price") := by
  have digits : ∀ c ∈ "5".toList, c.isDigit = true :=
    List.all_eq_true.1 (rfl : "5".toList.all Char.isDigit = true)
  have ends : Harmless ("0 eq Price".toList.dropWhile Char.isDigit) := .ends rfl
  have hangs : Harmless ("e, Price".toList.dropWhile Char.isDigit) := .hangs rfl fun _ => rfl
  exact ⟨⟨by decide, digits⟩,
    (@leading_points_read_alike_iff '-' "5" "0 eq Price" (.inr rfl) (by decide) digits).2 ends,
    (@leading_points_read_alike_iff '+' "5" "e, Price" (.inl rfl) (by decide) digits).2 hangs⟩

/-- An exponent makes a number without whole part malformed, and a word behind one is cut off where it
is shown. -/
theorem leading_point_refuses_exponent :
    tokenize "-.5e3" = .error (.malformedNumber 0 "-.5e") ∧
    tokenize "-0.5e3" = .ok [⟨.literal .number, 0, "-0.5e3".toList⟩, ⟨.eof, 6, []⟩] ∧
    tokenize "+.5abc" = .error (.malformedNumber 0 "+.5a") ∧
    tokenize "+0.5abc" = .error (.malformedNumber 0 "+0.5abc") := by
  decide +kernel

end ClauseSql.Lexing
