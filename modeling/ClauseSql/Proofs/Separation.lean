import ClauseSql.Proofs.Relexing

/-! Texts side by side. Behind a blank or a comma no token goes on, so a text that has tokens has the
same ones in front of such a mark, whatever follows it; and what follows has the tokens that it has alone,
further back by the bytes before it. -/
namespace ClauseSql.Lexing

open Text Token

/-- A mark at which every token ends, except for strings that are still open. -/
def isSeparator (c : Char) : Bool := isBlank c || c == ','

def Apart (rest : List Char) : Prop := ∀ c ∈ rest.head?, isSeparator c = true

theorem Apart.cons {c : Char} (mark : isSeparator c = true) (rest : List Char) : Apart (c :: rest) := by
  rintro _ ⟨⟩
  exact mark

def Blind (test : Char → Bool) : Prop := ∀ c, isSeparator c = true → test c = false

theorem blind_of_marks {test : Char → Bool}
    (marks : test ' ' = false ∧ test '\t' = false ∧ test '\n' = false ∧ test '\x0c' = false ∧
      test '\r' = false ∧ test ',' = false) : Blind test := by
  intro c mark
  simp only [isSeparator, isBlank, Bool.or_eq_true, beq_iff_eq] at mark
  obtain ((((rfl | rfl) | rfl) | rfl) | rfl) | rfl := mark <;> simp [marks]

section Unseen

variable {rest : List Char} (apart : Apart rest)
include apart

theorem Apart.startsWith_none {p : Char → Bool} (blind : Blind p) : startsWith p rest = false := by
  cases rest with
  | nil => rfl
  | cons c rest => exact blind c (apart c rfl)

theorem startsWith_apart {p : Char → Bool} (blind : Blind p) (cs : List Char) :
    startsWith p (cs ++ rest) = startsWith p cs := by
  cases cs with
  | nil => exact apart.startsWith_none blind
  | cons => rfl

theorem takeWhile_apart {p : Char → Bool} (blind : Blind p) (cs : List Char) :
    (cs ++ rest).takeWhile p = cs.takeWhile p := by
  induction cs with
  | nil =>
    have none : ([] : List Char).all p = true := rfl
    exact takeWhile_append none (apart.startsWith_none blind)
  | cons c cs ih => simp only [List.cons_append, List.takeWhile_cons, ih]

theorem digits_apart (cs : List Char) : Numeral.digits (cs ++ rest) = Numeral.digits cs :=
  takeWhile_apart apart (blind_of_marks (by decide)) cs

omit apart in
theorem drop_append_of_isPrefix {taken cs : List Char} (begins : taken <+: cs) (rest : List Char) :
    (cs ++ rest).drop taken.length = cs.drop taken.length ++ rest :=
  List.drop_append_of_le_length begins.length_le

omit apart in
theorem andThen_same {s : Numeral.Scan} {next : List Char → Numeral.Scan} {cs : List Char}
    (before : s.taken <+: cs) (same : ∀ cs, next (cs ++ rest) = next cs) :
    s.andThen (cs ++ rest) next = s.andThen cs next := by
  simp only [Numeral.Scan.andThen, drop_append_of_isPrefix before, same]

theorem fraction_apart (cs : List Char) : Numeral.fraction (cs ++ rest) = Numeral.fraction cs := by
  cases cs with
  | cons c cs => simp only [List.cons_append, Numeral.fraction, digits_apart apart]
  | nil =>
    cases rest with
    | nil => rfl
    | cons c rest =>
      have other : c ≠ '.' := by rintro rfl; cases apart _ rfl
      simp [Numeral.fraction, other]

theorem sign_apart (cs : List Char) : Numeral.sign (cs ++ rest) = Numeral.sign cs := by
  cases cs with
  | cons c cs => rfl
  | nil =>
    cases rest with
    | nil => rfl
    | cons c rest =>
      have other : ¬ (c = '+' ∨ c = '-') := by rintro (rfl | rfl) <;> cases apart _ rfl
      simp only [List.nil_append, Numeral.sign, other, if_false]

theorem exponent_apart (cs : List Char) : Numeral.exponent (cs ++ rest) = Numeral.exponent cs := by
  cases cs with
  | cons c cs =>
    simp only [List.cons_append, Numeral.exponent, sign_apart apart,
      drop_append_of_isPrefix (sign_isPrefix cs), digits_apart apart]
  | nil =>
    cases rest with
    | nil => rfl
    | cons c rest =>
      have other : ¬ (c = 'e' ∨ c = 'E') := by rintro (rfl | rfl) <;> cases apart _ rfl
      simp only [List.nil_append, Numeral.exponent, other, if_false]

theorem ending_apart (cs : List Char) : Numeral.ending (cs ++ rest) = Numeral.ending cs := by
  rw [Numeral.ending, Numeral.ending, startsWith_apart apart (blind_of_marks (by decide))]

theorem numeral_apart (cs : List Char) : Numeral.scan (cs ++ rest) = Numeral.scan cs := by
  have whole : (⟨Numeral.digits cs, true⟩ : Numeral.Scan).taken <+: cs := digits_isPrefix cs
  have places := andThen_isPrefix whole fraction_isPrefix
  have power := andThen_isPrefix places exponent_isPrefix
  simp only [Numeral.scan, digits_apart apart, andThen_same whole (fraction_apart apart),
    andThen_same places (exponent_apart apart), andThen_same power (ending_apart apart)]

theorem shaped?_apart {shape : List Char} (plain : shape.all (fun p => !isSeparator p) = true)
    (cs : List Char) : Dated.shaped? shape (cs ++ rest) = Dated.shaped? shape cs := by
  induction shape generalizing cs with
  | nil => simp only [Dated.shaped?]
  | cons p ps ih =>
    rw [List.all_cons, Bool.and_eq_true] at plain
    cases cs with
    | cons c cs => simp only [List.cons_append, Dated.shaped?, ih plain.2]
    | nil =>
      cases rest with
      | nil => rfl
      | cons c rest =>
        have mark := apart c rfl
        have digit : isDecimalDigit c = false := blind_of_marks (by decide) c mark
        have other : (c == p) = false := by
          rw [beq_eq_false_iff_ne]
          rintro rfl
          simp [mark] at plain
        simp [Dated.shaped?, digit, other]

theorem zone?_apart (cs : List Char) : Dated.zone? (cs ++ rest) = Dated.zone? cs := by
  cases cs with
  | cons c cs =>
    have offset : Dated.shaped? ['0', '0', ':', '0', '0'] (cs ++ rest) =
        Dated.shaped? ['0', '0', ':', '0', '0'] cs := shaped?_apart apart (by decide) cs
    simp only [List.cons_append, Dated.zone?, offset]
  | nil =>
    cases rest with
    | nil => rfl
    | cons c rest =>
      have zulu : c ≠ 'Z' := by rintro rfl; cases apart _ rfl
      have sign : ¬ (c = '+' ∨ c = '-') := by rintro (rfl | rfl) <;> cases apart _ rfl
      simp only [List.nil_append, Dated.zone?, zulu, sign, if_false]

theorem datedFraction_apart (cs : List Char) : Dated.fraction (cs ++ rest) = Dated.fraction cs := by
  cases cs with
  | cons c cs =>
    have places : (cs ++ rest).takeWhile isDecimalDigit = cs.takeWhile isDecimalDigit :=
      takeWhile_apart apart (blind_of_marks (by decide)) cs
    simp only [List.cons_append, Dated.fraction, places]
  | nil => exact datedFraction_none (apart.startsWith_none (blind_of_marks (by decide)))

theorem seconds_apart (cs : List Char) : Dated.seconds (cs ++ rest) = Dated.seconds cs := by
  unfold Dated.seconds
  rw [shaped?_apart apart (by decide)]
  cases read : Dated.shaped? [':', '0', '0'] cs with
  | none => rfl
  | some whole =>
    simp only [drop_append_of_isPrefix (shaped?_isPrefix read), datedFraction_apart apart]

theorem time?_apart (cs : List Char) : Dated.time? (cs ++ rest) = Dated.time? cs := by
  unfold Dated.time?
  rw [shaped?_apart apart (by decide)]
  cases read : Dated.shaped? ['T', '0', '0', ':', '0', '0'] cs with
  | none => rfl
  | some minutes =>
    have most := append_isPrefix (shaped?_isPrefix read) (seconds_isPrefix _)
    simp only [Option.bind_eq_bind, Option.bind_some, drop_append_of_isPrefix (shaped?_isPrefix read),
      seconds_apart apart, drop_append_of_isPrefix most, zone?_apart apart]

theorem longest?_apart (cs : List Char) : Dated.longest? (cs ++ rest) = Dated.longest? cs := by
  unfold Dated.longest? Dated.day?
  rw [shaped?_apart apart (by decide)]
  refine Option.map_congr fun day read => ?_
  rw [drop_append_of_isPrefix (shaped?_isPrefix read), time?_apart apart]

theorem dated_apart (cs : List Char) : Dated.literal? (cs ++ rest) = Dated.literal? cs := by
  unfold Dated.literal?
  rw [longest?_apart apart]
  cases read : Dated.longest? cs with
  | none => rfl
  | some found =>
    have follows := startsWith_apart apart (p := Dated.cannotFollow) (blind_of_marks (by decide))
    simp only [Option.filter_some, drop_append_of_isPrefix (longest?_isPrefix read), follows]

theorem quotedRest?_apart {cs body after : List Char} (read : quotedRest? cs = some (body, after)) :
    quotedRest? (cs ++ rest) = some (body, after ++ rest) := by
  have quote : startsWith (· == '\'') rest = false := apart.startsWith_none (blind_of_marks (by decide))
  fun_induction quotedRest? cs generalizing body after with
  | case1 => cases read
  | case2 cs ih =>
    obtain ⟨⟨inner, more⟩, found, equal⟩ := Option.map_eq_some_iff.mp read
    cases equal
    simp [quotedRest?, ih found]
  | case3 cs alone =>
    cases read
    cases cs with
    | nil =>
      have closed : quotedRest? ['\''] = some (['\''], []) := rfl
      exact quotedRest?_again closed quote
    | cons c cs =>
      have other : c ≠ '\'' := by rintro rfl; exact alone _ rfl
      simp [quotedRest?, other]
  | case4 c cs pair single ih =>
    obtain ⟨⟨inner, more⟩, found, equal⟩ := Option.map_eq_some_iff.mp read
    cases equal
    rw [List.cons_append, quotedRest?, ih found]
    · rfl
    · exact fun _ quote _ => single quote
    · exact single

theorem nameRest_apart (cs : List Char) : nameRest (cs ++ rest) = nameRest cs := by
  induction cs with
  | nil =>
    cases rest with
    | nil => rfl
    | cons c rest =>
      have letter : isNameChar c = false := blind_of_marks (by decide) c (apart c rfl)
      have slash : c ≠ '/' := by rintro rfl; cases apart _ rfl
      simp [nameRest, letter, slash]
  | cons c cs ih =>
    have next := startsWith_apart apart (p := isNameStart) (blind_of_marks (by decide)) cs
    simp only [List.cons_append, nameRest, ih, next]

theorem scanName_apart (c : Char) (cs : List Char) : scanName c (cs ++ rest) = scanName c cs := by
  have paren := startsWith_apart apart (p := (· == '(')) (blind_of_marks (by decide))
  simp only [scanName, nameRest_apart apart, drop_append_of_isPrefix (nameRest_isPrefix cs), nameKind,
    paren]

theorem scanNumber_apart (start : Nat) (before cs : List Char) :
    scanNumber start before (cs ++ rest) = scanNumber start before cs := by
  have shown : ((cs ++ rest).drop (Numeral.scan cs).taken.length).takeWhile continuesNumber =
      (cs.drop (Numeral.scan cs).taken.length).takeWhile continuesNumber := by
    rw [drop_append_of_isPrefix (numeral_isPrefix cs)]
    exact takeWhile_apart apart (blind_of_marks (by decide)) _
  simp only [scanNumber, numeral_apart apart, Numeral.malformed, shown]

theorem scanFraction_apart (start : Nat) (sign : Char) (cs : List Char) :
    scanFraction start sign (cs ++ rest) = scanFraction start sign cs := by
  simp only [scanFraction, digits_apart apart, drop_append_of_isPrefix (digits_isPrefix cs)]
  cases cs.drop (Numeral.digits cs).length with
  | cons => rfl
  | nil =>
    cases rest with
    | nil => rfl
    | cons c rest =>
      have other : continuesNumber c = false := blind_of_marks (by decide) c (apart c rfl)
      simp [other]

theorem scanSigned_apart (start : Nat) (sign : Char) (cs : List Char) :
    scanSigned start sign (cs ++ rest) = scanSigned start sign cs := by
  cases cs with
  | cons c cs =>
    have digit := startsWith_apart apart (p := Char.isDigit) (blind_of_marks (by decide)) cs
    have number := scanNumber_apart apart start [sign] (c :: cs)
    rw [List.cons_append] at number
    simp only [List.cons_append, scanSigned, number, digit, scanFraction_apart apart]
  | nil =>
    cases rest with
    | nil => rfl
    | cons c rest =>
      have digit : c.isDigit = false := blind_of_marks (by decide) c (apart c rfl)
      have point : c ≠ '.' := by rintro rfl; cases apart _ rfl
      simp [scanSigned, digit, point]

theorem scanDigit_apart (start : Nat) (cs : List Char) :
    scanDigit start (cs ++ rest) = scanDigit start cs := by
  simp only [scanDigit, dated_apart apart, scanNumber_apart apart]

theorem scan_apart {start : Nat} {c : Char} {cs : List Char} {found : TokenKind × List Char}
    (scanned : scan start c cs = .ok found) : scan start c (cs ++ rest) = .ok found := by
  by_cases quote : c = '\''
  · subst quote
    obtain ⟨body, read, rfl⟩ := Outcome.map_eq_ok.1 scanned
    unfold scanString at read
    split at read
    · next quoted =>
      cases read
      have again : scanString start (cs ++ rest) = .ok body := by
        simp only [scanString, quotedRest?_apart apart quoted]
      exact Outcome.map_eq_ok.2 ⟨body, again, rfl⟩
    · cases read
  · have digit := scanDigit_apart apart start (c :: cs)
    rw [List.cons_append] at digit
    simp only [scan, quote, if_false, scanSigned_apart apart, digit, scanName_apart apart] at scanned ⊢
    exact scanned

end Unseen

end ClauseSql.Lexing

namespace ClauseSql

def LexError.shift (d : Nat) : LexError → LexError
  | unterminatedString position => unterminatedString (position + d)
  | unexpectedCharacter position char => unexpectedCharacter (position + d) char
  | malformedNumber position text => malformedNumber (position + d) text

def Token.shift (d : Nat) (t : Token) : Token := { t with start := t.start + d }

def Token.Failure.shift (d : Nat) (failure : Failure) : Failure :=
  { failure with error := failure.error.shift d }

end ClauseSql

namespace ClauseSql.Lexing

open Text Token

section Shifted

variable (d start : Nat)

theorem scanNumber_shift (before cs : List Char) :
    scanNumber (start + d) before cs = (scanNumber start before cs).mapError (Failure.shift d) := by
  unfold scanNumber
  dsimp only
  split <;> rfl

theorem scanFraction_shift (sign : Char) (cs : List Char) :
    scanFraction (start + d) sign cs = (scanFraction start sign cs).mapError (Failure.shift d) := by
  unfold scanFraction
  dsimp only
  cases cs.drop (Numeral.digits cs).length with
  | nil => rfl
  | cons c rest => dsimp only; split <;> rfl

theorem scanSigned_shift (sign : Char) (cs : List Char) :
    scanSigned (start + d) sign cs = (scanSigned start sign cs).mapError (Failure.shift d) := by
  unfold scanSigned
  cases cs with
  | nil => rfl
  | cons c cs =>
    dsimp only
    split
    · exact scanNumber_shift d start [sign] (c :: cs)
    · split
      · exact scanFraction_shift d start sign cs
      · rfl

theorem scanDigit_shift (cs : List Char) :
    scanDigit (start + d) cs = (scanDigit start cs).mapError (Failure.shift d) := by
  unfold scanDigit
  cases Dated.literal? cs with
  | some => rfl
  | none =>
    dsimp only
    rw [scanNumber_shift]
    cases scanNumber start [] cs <;> rfl

theorem scanString_shift (cs : List Char) :
    scanString (start + d) cs = (scanString start cs).mapError (Failure.shift d) := by
  unfold scanString
  cases quotedRest? cs <;> rfl

theorem scan_shift (c : Char) (cs : List Char) :
    scan (start + d) c cs = (scan start c cs).mapError (Failure.shift d) := by
  simp only [scan, scanString_shift, scanSigned_shift, scanDigit_shift]
  split_ifs
  all_goals first | rfl | skip
  · cases scanString start cs <;> rfl
  · cases scanSigned start c cs <;> rfl
  · cases scanDigit start (c :: cs) <;> rfl

theorem tokensFrom_shift (position : Nat) (cs : List Char) :
    tokensFrom (position + d) cs =
      ((tokensFrom position cs).map (List.map (Token.shift d))).mapError (LexError.shift d) := by
  induction size : cs.length using Nat.strong_induction_on generalizing position cs with | _ n ih => ?_
  rw [tokensFrom_eq, tokensFrom_eq position, Nat.add_right_comm]
  cases visible : cs.dropWhile isBlank with
  | nil => rfl
  | cons c rest =>
    have shorter := List.length_dropWhile_le isBlank cs
    rw [visible, List.length_cons] at shorter
    dsimp only
    rw [scan_shift]
    cases scan (position + byteLength (cs.takeWhile isBlank)) c rest with
    | error => rfl
    | ok found =>
      obtain ⟨kind, tail⟩ := found
      dsimp only [Except.mapError]
      rw [Nat.add_right_comm _ d (byteLength _), ih (rest.drop tail.length).length (by grind) _ _ rfl]
      cases tokensFrom (position + byteLength (cs.takeWhile isBlank) + byteLength (c :: tail))
        (rest.drop tail.length) <;> rfl

end Shifted

theorem scan_anywhere {start : Nat} {c : Char} {cs : List Char} {found : TokenKind × List Char}
    (scanned : scan start c cs = .ok found) (position : Nat) : scan position c cs = .ok found := by
  rw [← Nat.zero_add start, scan_shift, Outcome.mapError_eq_ok] at scanned
  rw [← Nat.zero_add position, scan_shift, scanned]
  rfl

/-- A text that has tokens has them in front of a separator too. -/
theorem lexes_apart {position : Nat} {cs rest : List Char} {ts : List Token}
    (lexed : tokensFrom position cs = .ok ts) (apart : Apart rest) :
    Lexes position cs ts.dropLast rest := by
  fun_induction tokensFrom position cs generalizing ts with
  | case1 position cs start =>
    rename_i visible
    cases lexed
    exact .blanks (List.dropWhile_eq_nil_iff.mp visible) position rest
  | case2 => cases lexed
  | case3 => cases lexed
  | case4 position cs start c after visible kind tail scanned token less tokens more =>
    rename_i ih
    cases lexed
    have seen : isBlank c = false := by
      have first := List.head?_dropWhile_not isBlank cs
      rwa [visible, List.head?_cons] at first
    obtain ⟨left, rfl⟩ := (scan_found scanned).tail_isPrefix
    rw [List.drop_left] at ih more
    have again : Rescans kind (c :: tail) (left ++ rest) := by
      refine ⟨c, tail, rfl, seen, fun p => ?_⟩
      rw [← List.append_assoc]
      exact scan_apart apart (scan_anywhere scanned p)
    have blank := List.all_eq_true.mp (List.all_takeWhile (p := isBlank) (l := cs))
    have one := (Lexes.blanks blank position _).append (.token again start)
    have behind := ih more
    have place : token.stop = position + byteLength (cs.takeWhile isBlank ++ c :: tail) := by
      simp [token, start, Token.stop, Token.length, Nat.add_assoc]
    rw [place] at behind
    have split := List.takeWhile_append_dropWhile (p := isBlank) (l := cs)
    rw [visible] at split
    have last : tokens ≠ [] := by
      obtain ⟨body, ends, proper⟩ := (tokensFrom_layout more).ending
      simp [ends]
    rw [← split]
    simpa [List.dropLast_cons_of_ne_nil last] using one.append behind

theorem Lexes.shifted {text rest : List Char} {ts : List Token} (lexes : Lexes 0 text ts rest) :
    tokensFrom 0 (text ++ rest) =
      ((tokensFrom 0 rest).map fun us => ts ++ us.map (Token.shift (byteLength text))).mapError
        (LexError.shift (byteLength text)) := by
  rw [lexes, tokensFrom_shift]
  cases tokensFrom 0 rest <;> rfl

theorem tokenize_gap {a w : String} {ts : List Token} (lexed : tokenize a = .ok ts) (gap : w ≠ "")
    (blank : ∀ c ∈ w.toList, isBlank c = true) (b : String) :
    tokenize (a ++ w ++ b) =
      ((tokenize b).map fun us =>
        ts.dropLast ++ us.map (Token.shift (byteLength (a ++ w).toList))).mapError
        (LexError.shift (byteLength (a ++ w).toList)) := by
  have apart : Apart (w.toList ++ b.toList) := by
    cases chars : w.toList with
    | nil => exact absurd (String.toList_eq_nil_iff.mp chars) gap
    | cons c cs => exact .cons (by simp [isSeparator, blank c (by simp [chars])]) _
  have front := (lexes_apart lexed apart).append (.blanks blank _ b.toList)
  rw [List.append_nil] at front
  simpa only [tokenize, String.toList_append] using front.shifted

def reading (t : Token) : TokenKind × String := (t.kind, t.contents)

theorem reading_shift (d : Nat) (t : Token) : reading (t.shift d) = reading t := rfl

/-- Behind a text that has tokens, and at least one blank, a text is read as if it stood alone: the tokens
of both follow one another, those of the second further back, and its error is the error of the whole. So
it does not matter how many and which blanks stand there. -/
theorem tokenize_separated {a w : String} {ts : List Token} (lexed : tokenize a = .ok ts) (gap : w ≠ "")
    (blank : ∀ c ∈ w.toList, isBlank c = true) (b : String) :
    tokenize (a ++ w ++ b) =
        ((tokenize b).map fun us =>
          ts.dropLast ++ us.map (Token.shift (byteLength (a ++ w).toList))).mapError
          (LexError.shift (byteLength (a ++ w).toList)) ∧
      ∀ v : String, v ≠ "" → (∀ c ∈ v.toList, isBlank c = true) →
        (tokenize (a ++ v ++ b)).toOption.map (List.map reading) =
          (tokenize (a ++ w ++ b)).toOption.map (List.map reading) := by
  refine ⟨tokenize_gap lexed gap blank b, fun v other also => ?_⟩
  rw [tokenize_gap lexed gap blank b, tokenize_gap lexed other also b]
  cases tokenize b with
  | error => rfl
  | ok us =>
    simp only [Except.map, Except.mapError, Except.toOption, Option.map_some, List.map_append,
      List.map_map, Function.comp_def, reading_shift]

/-- Without the blanks these would be a call and a moment. -/
theorem tokenize_separated_lookahead :
    tokenize ("Total" ++ "\t " ++ "(1)") =
        .ok [⟨.identifier, 0, ['T', 'o', 't', 'a', 'l']⟩, ⟨.openParen, 7, ['(']⟩,
          ⟨.literal .number, 8, ['1']⟩, ⟨.closeParen, 9, [')']⟩, ⟨.eof, 10, []⟩] ∧
      tokenize ("2024-01-15" ++ " " ++ "T10:30Z") = .error (.unexpectedCharacter 14 ':') := by
  have name : tokenize "Total" =
      .ok [⟨.identifier, 0, ['T', 'o', 't', 'a', 'l']⟩, ⟨.eof, 5, []⟩] := by decide +kernel
  have day : tokenize "2024-01-15" =
      .ok [⟨.literal .date, 0, "2024-01-15".toList⟩, ⟨.eof, 10, []⟩] := by decide +kernel
  have call := (tokenize_separated name (w := "\t ") (by decide) (by simp [isBlank]) "(1)").1
  have moment := (tokenize_separated day (w := " ") (by decide) (by simp [isBlank]) "T10:30Z").1
  have rest : tokenize "(1)" = .ok [⟨.openParen, 0, ['(']⟩, ⟨.literal .number, 1, ['1']⟩,
      ⟨.closeParen, 2, [')']⟩, ⟨.eof, 3, []⟩] := by decide +kernel
  have time : tokenize "T10:30Z" = .error (.unexpectedCharacter 3 ':') := by decide +kernel
  rw [rest] at call
  rw [time] at moment
  exact ⟨call, moment⟩

end ClauseSql.Lexing
