import ClauseSql.Proofs.Lexing

/-! What a source without tokens is told. Every error of the lexer names a place in the source and
shows what stands there. -/
namespace ClauseSql.Lexing

open Text Token Outcome

theorem malformed_isPrefix (cs : List Char) :
    Numeral.malformed cs (Numeral.scan cs) <+: cs :=
  append_isPrefix (numeral_isPrefix cs) (List.takeWhile_prefix _)

/-- The error points at its place in the source, and shows what stands there. -/
def Points (source : List Char) : LexError → Prop
  | .unterminatedString position => ∃ rest, dropBytes? source position = some ('\'' :: rest)
  | .unexpectedCharacter position c => ∃ rest, dropBytes? source position = some (c :: rest)
  | .malformedNumber position text =>
    slice? source position (position + byteLength text.toList) = some text.toList

inductive Failed (start : Nat) (c : Char) (cs : List Char) : LexError → Prop
  | unterminated : c = '\'' → Failed start c cs (.unterminatedString start)
  | unexpected : Failed start c cs (.unexpectedCharacter start c)
  | malformed {text : List Char} : text <+: c :: cs →
      Failed start c cs (.malformedNumber start (String.ofList text))

theorem scanNumber_failed {start : Nat} {c : Char} {before cs rest : List Char}
    {failure : Token.Failure} (scanned : scanNumber start before rest = .error failure)
    (whole : before ++ rest = c :: cs) : Failed start c cs failure.error := by
  simp only [scanNumber] at scanned
  split at scanned
  · cases scanned
  · cases scanned
    refine .malformed ?_
    rw [← whole]
    exact (List.prefix_append_right_inj before).2 (malformed_isPrefix rest)

theorem scanSigned_failed {start : Nat} {c : Char} {cs : List Char} {failure : Token.Failure}
    (scanned : scanSigned start c cs = .error failure) : Failed start c cs failure.error := by
  unfold scanSigned at scanned
  split at scanned
  · cases scanned
    exact .unexpected
  · next d rest =>
    split at scanned
    · exact scanNumber_failed scanned rfl
    · split at scanned
      · next point =>
        obtain ⟨rfl, -⟩ := point
        simp only [scanFraction] at scanned
        split at scanned
        · cases scanned
        · next e more follows =>
          split at scanned
          · cases scanned
            have shown : Numeral.digits rest ++ [e] <+: rest :=
              append_isPrefix (digits_isPrefix rest) ⟨more, follows.symm⟩
            exact .malformed (by simpa using shown)
          · cases scanned
      · cases scanned
        exact .unexpected

theorem scan_failed {start : Nat} {c : Char} {cs : List Char} {failure : Token.Failure}
    (scanned : scan start c cs = .error failure) : Failed start c cs failure.error := by
  unfold scan at scanned
  split at scanned
  · cases scanned
  split at scanned
  · cases scanned
  split at scanned
  · cases scanned
  split at scanned
  · next quote =>
    have read := map_eq_error.1 scanned
    unfold scanString at read
    split at read
    · cases read
    · cases read
      exact .unterminated quote
  split at scanned
  · exact scanSigned_failed (map_eq_error.1 scanned)
  split at scanned
  · have read := map_eq_error.1 scanned
    unfold scanDigit at read
    split at read
    · cases read
    · exact scanNumber_failed (map_eq_error.1 read) rfl
  split at scanned
  · cases scanned
  · cases scanned
    exact .unexpected

theorem Failed.position {start : Nat} {c : Char} {cs : List Char} {error : LexError}
    (failed : Failed start c cs error) : error.position = start := by
  cases failed <;> rfl

theorem Failed.points {c : Char} {before rest : List Char} {error : LexError}
    (failed : Failed (byteLength before) c rest error) : Points (before ++ c :: rest) error := by
  cases failed with
  | unterminated quote => exact ⟨rest, quote ▸ dropBytes?_append before (c :: rest)⟩
  | unexpected => exact ⟨rest, dropBytes?_append before (c :: rest)⟩
  | malformed shown =>
    obtain ⟨more, same⟩ := shown
    rw [Points, ← same, String.toList_ofList]
    exact slice?_append before _ more

theorem tokensFrom_failed {position : Nat} {cs : List Char} {error : LexError}
    (failed : tokensFrom position cs = .error error) :
    ∃ front c rest, cs = front ++ c :: rest ∧ Failed (position + byteLength front) c rest error := by
  fun_induction tokensFrom position cs with
  | case1 => cases failed
  | case2 position cs start c rest visible failure scanned =>
    cases failed
    have split := List.takeWhile_append_dropWhile (p := isBlank) (l := cs)
    rw [visible] at split
    exact ⟨_, c, rest, split.symm, scan_failed scanned⟩
  | case3 position cs start c rest visible kind tail scanned token less failure more =>
    rename_i ih
    cases failed
    have split := List.takeWhile_append_dropWhile (p := isBlank) (l := cs)
    obtain ⟨left, rfl⟩ := (scan_found scanned).tail_isPrefix
    simp only [List.drop_left] at ih more
    obtain ⟨front, d, rest, rfl, found⟩ := ih more
    rw [visible] at split
    refine ⟨cs.takeWhile isBlank ++ c :: (tail ++ front), d, rest, ?_, ?_⟩
    · simp [split]
    · have place : token.stop + byteLength front =
          position + byteLength (cs.takeWhile isBlank ++ c :: (tail ++ front)) := by
        simp [token, Token.stop, Token.length, start, Nat.add_assoc]
      exact place ▸ found
  | case4 => cases failed

theorem tokenize_failed {source : String} {error : LexError} (failed : tokenize source = .error error) :
    ∃ front c rest, source.toList = front ++ c :: rest ∧ Failed (byteLength front) c rest error := by
  simpa only [Nat.zero_add] using tokensFrom_failed failed

theorem tokenize_points {source : String} {error : LexError}
    (failed : tokenize source = .error error) : Points source.toList error := by
  obtain ⟨front, c, rest, whole, failed⟩ := tokenize_failed failed
  rw [whole]
  exact failed.points

end ClauseSql.Lexing
