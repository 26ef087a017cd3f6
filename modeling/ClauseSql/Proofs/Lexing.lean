import ClauseSql.Proofs.Outcome
import ClauseSql.Token.Scan

/-! How tokens lie in their source. Behind some blanks every token takes a piece of the text, and
the next one begins where it ends; the end marker alone takes nothing. -/
namespace ClauseSql.Lexing

open Text Token

theorem quotedRest?_append {cs body rest : List Char} (read : quotedRest? cs = some (body, rest)) :
    cs = body ++ rest := by
  fun_induction quotedRest? cs generalizing body rest with
  | case1 => simp at read
  | case2 cs ih =>
    obtain ⟨⟨inner, more⟩, found, equal⟩ := Option.map_eq_some_iff.mp read
    simp only [Prod.mk.injEq] at equal
    obtain ⟨rfl, rfl⟩ := equal
    simp [← ih found]
  | case3 cs =>
    simp only [Option.some.injEq, Prod.mk.injEq] at read
    obtain ⟨rfl, rfl⟩ := read
    rfl
  | case4 c cs _ _ ih =>
    obtain ⟨⟨inner, more⟩, found, equal⟩ := Option.map_eq_some_iff.mp read
    simp only [Prod.mk.injEq] at equal
    obtain ⟨rfl, rfl⟩ := equal
    simp [← ih found]

theorem digits_isPrefix (cs : List Char) : Numeral.digits cs <+: cs :=
  List.takeWhile_prefix Char.isDigit

theorem andThen_isPrefix {cs : List Char} {s : Numeral.Scan} {next : List Char → Numeral.Scan}
    (before : s.taken <+: cs) (after : ∀ rest, (next rest).taken <+: rest) :
    (s.andThen cs next).taken <+: cs := by
  unfold Numeral.Scan.andThen
  split
  · obtain ⟨rest, rfl⟩ := before
    simpa using after rest
  · exact before

theorem fraction_isPrefix (cs : List Char) : (Numeral.fraction cs).taken <+: cs := by
  cases cs with
  | nil => simp [Numeral.fraction]
  | cons c cs =>
    simp only [Numeral.fraction]
    split
    · simpa using digits_isPrefix cs
    · simp

theorem sign_isPrefix (cs : List Char) : Numeral.sign cs <+: cs := by
  cases cs with
  | nil => simp [Numeral.sign]
  | cons c cs =>
    simp only [Numeral.sign]
    split <;> simp

theorem exponent_isPrefix (cs : List Char) : (Numeral.exponent cs).taken <+: cs := by
  cases cs with
  | nil => simp [Numeral.exponent]
  | cons c cs =>
    simp only [Numeral.exponent]
    split
    · obtain ⟨rest, equal⟩ := sign_isPrefix cs
      simp only [List.cons_prefix_cons, true_and]
      generalize Numeral.sign cs = sign at equal ⊢
      subst equal
      simpa using digits_isPrefix rest
    · simp

theorem numeral_isPrefix (cs : List Char) : (Numeral.scan cs).taken <+: cs :=
  andThen_isPrefix
    (andThen_isPrefix (andThen_isPrefix (digits_isPrefix cs) fraction_isPrefix) exponent_isPrefix)
    (fun _ => List.nil_prefix)

theorem scanNumber_ok {start : Nat} {before cs lexeme : List Char}
    (scanned : scanNumber start before cs = .ok lexeme) :
    lexeme = before ++ (Numeral.scan cs).taken ∧ (Numeral.scan cs).wellFormed := by
  simp only [scanNumber] at scanned
  split at scanned
  · simp only [Except.ok.injEq] at scanned
    exact ⟨scanned.symm, by assumption⟩
  · simp at scanned

theorem scanFraction_ok {start : Nat} {sign : Char} {cs lexeme : List Char}
    (scanned : scanFraction start sign cs = .ok lexeme) :
    lexeme = sign :: '.' :: Numeral.digits cs := by
  simp only [scanFraction] at scanned
  split at scanned
  · simpa using scanned.symm
  · split at scanned
    · simp at scanned
    · simpa using scanned.symm

theorem scanSigned_ok {start : Nat} {sign : Char} {cs lexeme : List Char}
    (scanned : scanSigned start sign cs = .ok lexeme) :
    (lexeme = sign :: (Numeral.scan cs).taken ∧ (Numeral.scan cs).wellFormed ∧
        startsWith Char.isDigit cs) ∨
      ∃ rest, cs = '.' :: rest ∧ startsWith Char.isDigit rest ∧
        lexeme = sign :: '.' :: Numeral.digits rest := by
  unfold scanSigned at scanned
  split at scanned
  · simp [scanSigned.refused] at scanned
  · next c rest =>
    split at scanned
    · next digit =>
      obtain ⟨equal, formed⟩ := scanNumber_ok scanned
      exact .inl ⟨equal, formed, digit⟩
    · split at scanned
      · next point =>
        obtain ⟨rfl, digits⟩ := point
        exact .inr ⟨rest, rfl, digits, scanFraction_ok scanned⟩
      · simp [scanSigned.refused] at scanned

theorem shaped?_isPrefix {shape cs taken : List Char} (read : Dated.shaped? shape cs = some taken) :
    taken <+: cs := by
  fun_induction Dated.shaped? shape cs generalizing taken with
  | case1 => simp_all
  | case2 => simp at read
  | case3 p ps c cs fits ih =>
    obtain ⟨more, found, rfl⟩ := Option.map_eq_some_iff.mp read
    simpa using ih found
  | case4 => simp at read

theorem append_isPrefix {cs as bs : List Char} (first : as <+: cs) (more : bs <+: cs.drop as.length) :
    as ++ bs <+: cs := by
  obtain ⟨rest, rfl⟩ := first
  simpa using more

theorem zone?_isPrefix {cs zone : List Char} (read : Dated.zone? cs = some zone) : zone <+: cs := by
  cases cs with
  | nil => simp [Dated.zone?] at read
  | cons c cs =>
    simp only [Dated.zone?] at read
    split at read
    · simp only [Option.some.injEq] at read
      simp [← read]
    · split at read
      · obtain ⟨offset, found, rfl⟩ := Option.map_eq_some_iff.mp read
        simpa using shaped?_isPrefix found
      · simp at read

/-- A fraction of a second is nothing, or a point and one to nine digits. -/
theorem datedFraction_cases (cs : List Char) :
    Dated.fraction cs = [] ∨ ∃ places, Dated.fraction cs = '.' :: places ∧ places ≠ [] ∧
      places.length ≤ 9 ∧ places.all isDecimalDigit = true := by
  cases cs with
  | nil => exact .inl rfl
  | cons c cs =>
    simp only [Dated.fraction]
    split
    · next fits =>
      obtain ⟨rfl, some⟩ := fits
      have short : ((cs.takeWhile isDecimalDigit).take 9).length ≤ 9 := by
        rw [List.length_take]
        exact Nat.min_le_left _ _
      refine .inr ⟨_, rfl, some, short, ?_⟩
      have whole : (cs.takeWhile isDecimalDigit).all isDecimalDigit = true := List.all_takeWhile
      rw [List.all_eq_true] at whole ⊢
      exact fun d member => whole d (List.mem_of_mem_take member)
    · exact .inl rfl

theorem datedFraction_isPrefix (cs : List Char) : Dated.fraction cs <+: cs := by
  cases cs with
  | nil => simp [Dated.fraction]
  | cons c cs =>
    simp only [Dated.fraction]
    split
    · simpa using (List.take_prefix 9 _).trans (List.takeWhile_prefix isDecimalDigit)
    · simp

theorem seconds_isPrefix (cs : List Char) : Dated.seconds cs <+: cs := by
  unfold Dated.seconds
  split
  · simp
  · next whole read => exact append_isPrefix (shaped?_isPrefix read) (datedFraction_isPrefix _)

theorem time?_cases {cs time : List Char} (read : Dated.time? cs = some time) :
    ∃ minutes zone, Dated.shaped? ['T', '0', '0', ':', '0', '0'] cs = some minutes ∧
      Dated.zone? (cs.drop (minutes ++ Dated.seconds (cs.drop minutes.length)).length) = some zone ∧
      time = minutes ++ Dated.seconds (cs.drop minutes.length) ++ zone := by
  simp only [Dated.time?, Option.bind_eq_bind, Option.bind_eq_some_iff] at read
  obtain ⟨minutes, whole, zone, last, equal⟩ := read
  exact ⟨minutes, zone, whole, last, (Option.some.inj equal).symm⟩

theorem time?_isPrefix {cs time : List Char} (read : Dated.time? cs = some time) : time <+: cs := by
  obtain ⟨minutes, zone, whole, last, rfl⟩ := time?_cases read
  have most := append_isPrefix (shaped?_isPrefix whole) (seconds_isPrefix _)
  exact append_isPrefix most (zone?_isPrefix last)

theorem dated_cases {cs lexeme : List Char} {kind : LiteralKind}
    (read : Dated.literal? cs = some (kind, lexeme)) :
    ∃ day, Dated.day? cs = some day ∧ (kind = .date ∧ lexeme = day ∨
      ∃ time, Dated.time? (cs.drop day.length) = some time ∧ kind = .dateTime ∧ lexeme = day ++ time) := by
  simp only [Dated.literal?, Dated.longest?, Option.filter_eq_some_iff,
    Option.map_eq_some_iff] at read
  obtain ⟨⟨day, found, equal⟩, -⟩ := read
  refine ⟨day, found, ?_⟩
  split at equal
  · cases equal
    exact .inl ⟨rfl, rfl⟩
  · next time later =>
    cases equal
    exact .inr ⟨time, later, rfl, rfl⟩

theorem dated_isPrefix {cs lexeme : List Char} {kind : LiteralKind}
    (read : Dated.literal? cs = some (kind, lexeme)) :
    lexeme <+: cs ∧ (kind = .date ∨ kind = .dateTime) := by
  obtain ⟨day, found, ⟨rfl, rfl⟩ | ⟨time, later, rfl, rfl⟩⟩ := dated_cases read
  · exact ⟨shaped?_isPrefix found, .inl rfl⟩
  · exact ⟨append_isPrefix (shaped?_isPrefix found) (time?_isPrefix later), .inr rfl⟩

theorem longest?_isPrefix {cs lexeme : List Char} {kind : LiteralKind}
    (read : Dated.longest? cs = some (kind, lexeme)) : lexeme <+: cs := by
  obtain ⟨day, found, equal⟩ := Option.map_eq_some_iff.mp read
  split at equal
  · cases equal
    exact shaped?_isPrefix found
  · next time later =>
    cases equal
    exact append_isPrefix (shaped?_isPrefix found) (time?_isPrefix later)

theorem nameRest_isPrefix (cs : List Char) : nameRest cs <+: cs := by
  induction cs with
  | nil => simp [nameRest]
  | cons c cs ih =>
    simp only [nameRest]
    split
    · simpa using ih
    · simp

/-- The ways in which a token is found: its first character, the characters that follow it in the
source, its kind, and those of the characters that belong to it. -/
inductive Found : Char → List Char → TokenKind → List Char → Prop
  | openParen (cs : List Char) : Found '(' cs .openParen []
  | closeParen (cs : List Char) : Found ')' cs .closeParen []
  | comma (cs : List Char) : Found ',' cs .comma []
  | string {cs body rest : List Char} (quoted : quotedRest? cs = some (body, rest)) :
      Found '\'' cs (.literal .string) body
  | signed {c : Char} {cs : List Char} (sign : c = '+' ∨ c = '-')
      (digit : startsWith Char.isDigit cs) (formed : (Numeral.scan cs).wellFormed) :
      Found c cs (.literal .number) (Numeral.scan cs).taken
  | signedFraction {c : Char} {cs : List Char} (sign : c = '+' ∨ c = '-')
      (digit : startsWith Char.isDigit cs) :
      Found c ('.' :: cs) (.literal .number) ('.' :: Numeral.digits cs)
  | dated {c : Char} {cs lexeme : List Char} {kind : LiteralKind} (digit : c.isDigit)
      (read : Dated.literal? (c :: cs) = some (kind, lexeme)) :
      Found c cs (.literal kind) lexeme.tail
  | number {c : Char} {cs : List Char} (digit : c.isDigit)
      (formed : (Numeral.scan (c :: cs)).wellFormed) :
      Found c cs (.literal .number) (Numeral.scan (c :: cs)).taken.tail
  | name {c : Char} {cs : List Char} (letter : isNameStart c) :
      Found c cs (nameKind (c :: nameRest cs) (cs.drop (nameRest cs).length)) (nameRest cs)

theorem scan_found {start : Nat} {c : Char} {cs tail : List Char} {kind : TokenKind}
    (scanned : scan start c cs = .ok (kind, tail)) : Found c cs kind tail := by
  unfold scan at scanned
  split at scanned
  · next paren => cases scanned; exact paren ▸ .openParen cs
  split at scanned
  · next paren => cases scanned; exact paren ▸ .closeParen cs
  split at scanned
  · next comma => cases scanned; exact comma ▸ .comma cs
  split at scanned
  · next quote =>
    obtain ⟨body, read, equal⟩ := Outcome.map_eq_ok.1 scanned
    cases equal
    unfold scanString at read
    split at read
    · next quoted => cases read; exact quote ▸ .string quoted
    · cases read
  split at scanned
  · next sign =>
    obtain ⟨lexeme, read, equal⟩ := Outcome.map_eq_ok.1 scanned
    cases equal
    obtain ⟨rfl, formed, digit⟩ | ⟨rest, rfl, digit, rfl⟩ := scanSigned_ok read
    · exact .signed sign digit formed
    · exact .signedFraction sign digit
  split at scanned
  · next digit =>
    obtain ⟨⟨found, lexeme⟩, read, equal⟩ := Outcome.map_eq_ok.1 scanned
    cases equal
    unfold scanDigit at read
    split at read
    · next dated => cases read; exact .dated digit dated
    · obtain ⟨taken, number, equal⟩ := Outcome.map_eq_ok.1 read
      cases equal
      obtain ⟨rfl, formed⟩ := scanNumber_ok number
      exact .number digit formed
  split at scanned
  · next letter => cases scanned; exact .name letter
  · cases scanned

def nameKinds : List TokenKind :=
  [.path, .functionName, .identifier] ++ Keyword.spellings.map Prod.snd

theorem nameKind_mem (name rest : List Char) : nameKind name rest ∈ nameKinds := by
  unfold nameKind
  split
  · decide
  · split
    · next kind found =>
      unfold Keyword.find? at found
      split at found
      · obtain ⟨entry, listed, rfl⟩ := Option.map_eq_some_iff.mp found
        have member := List.mem_of_find?_eq_some listed
        exact List.mem_append_right _ (List.mem_map_of_mem member)
      · cases found
    · split <;> decide

theorem Found.kind_ne_eof {c : Char} {cs tail : List Char} {kind : TokenKind}
    (found : Found c cs kind tail) : kind ≠ .eof := by
  cases found with
  | @name c cs letter =>
    intro eof
    have member := nameKind_mem (c :: nameRest cs) (cs.drop (nameRest cs).length)
    rw [eof] at member
    exact absurd member (by decide)
  | _ => simp

theorem tail_isPrefix {c : Char} {as cs : List Char} (begins : as <+: c :: cs) : as.tail <+: cs := by
  cases as with
  | nil => simp
  | cons a as => exact (List.cons_prefix_cons.mp begins).2

theorem Found.tail_isPrefix {c : Char} {cs tail : List Char} {kind : TokenKind}
    (found : Found c cs kind tail) : tail <+: cs := by
  cases found with
  | openParen => simp
  | closeParen => simp
  | comma => simp
  | string quoted => exact ⟨_, (quotedRest?_append quoted).symm⟩
  | signed => exact numeral_isPrefix _
  | signedFraction => simpa using digits_isPrefix _
  | dated digit read => exact Lexing.tail_isPrefix (dated_isPrefix read).1
  | number digit formed => exact Lexing.tail_isPrefix (numeral_isPrefix (c :: cs))
  | name letter => exact nameRest_isPrefix _

/-- The tokens of a text that begins at byte `position`, laid out one behind the other. -/
inductive Layout : Nat → List Char → List Token → Prop
  | finish {position : Nat} {blanks : List Char} (blank : ∀ c ∈ blanks, isBlank c) :
      Layout position blanks [⟨.eof, position + byteLength blanks, []⟩]
  | token {position : Nat} {blanks : List Char} {t : Token} {c : Char} {tail rest : List Char}
      {ts : List Token} (blank : ∀ c ∈ blanks, isBlank c) (visible : ¬ isBlank c)
      (start : t.start = position + byteLength blanks) (lexeme : t.lexeme = c :: tail)
      (found : Found c (tail ++ rest) t.kind tail) (more : Layout t.stop rest ts) :
      Layout position (blanks ++ (t.lexeme ++ rest)) (t :: ts)

theorem tokensFrom_layout {position : Nat} {cs : List Char} {ts : List Token}
    (lexed : tokensFrom position cs = .ok ts) : Layout position cs ts := by
  fun_induction tokensFrom position cs generalizing ts with
  | case1 position cs start =>
    rename_i visible
    cases lexed
    have blank := List.takeWhile_append_dropWhile (p := isBlank) (l := cs)
    rw [visible, List.append_nil] at blank
    have all := List.all_takeWhile (p := isBlank) (l := cs)
    simp only [start, blank, List.all_eq_true] at all ⊢
    exact .finish all
  | case2 => cases lexed
  | case3 => cases lexed
  | case4 position cs start c rest visible kind tail scanned token less more rests =>
    rename_i ih
    cases lexed
    have all := List.all_takeWhile (p := isBlank) (l := cs)
    have first := List.head?_dropWhile_not isBlank cs
    have split := List.takeWhile_append_dropWhile (p := isBlank) (l := cs)
    have found := scan_found scanned
    obtain ⟨left, rfl⟩ := found.tail_isPrefix
    simp only [List.drop_left] at ih rests
    simp only [visible, List.head?_cons] at first
    rw [visible] at split
    rw [← split]
    exact .token (List.all_eq_true.mp all) (by simpa using first) rfl rfl found (ih rests)

theorem tokenize_layout {source : String} {ts : List Token} (lexed : tokenize source = .ok ts) :
    Layout 0 source.toList ts := tokensFrom_layout lexed

theorem length_pos {t : Token} {c : Char} {tail : List Char} (lexeme : t.lexeme = c :: tail) :
    0 < t.length := by
  rw [Token.length, lexeme, byteLength_cons]
  exact Nat.add_pos_left c.utf8Size_pos _

/-- The end marker stands behind the text and nowhere else, and every other token takes some text. -/
theorem Layout.ending {position : Nat} {cs : List Char} {ts : List Token}
    (layout : Layout position cs ts) :
    ∃ body, ts = body ++ [⟨.eof, position + byteLength cs, []⟩] ∧
      ∀ t ∈ body, t.kind ≠ .eof ∧ 0 < t.length := by
  induction layout with
  | finish blank => exact ⟨[], rfl, by simp⟩
  | @token position blanks t c tail rest ts blank visible start lexeme found more ih =>
    obtain ⟨body, rfl, proper⟩ := ih
    have stop : t.stop + byteLength rest = position + byteLength (blanks ++ (t.lexeme ++ rest)) := by
      simp [Token.stop, Token.length, start, Nat.add_assoc]
    refine ⟨t :: body, by rw [stop, List.cons_append], ?_⟩
    simp only [List.mem_cons, forall_eq_or_imp]
    exact ⟨⟨found.kind_ne_eof, length_pos lexeme⟩, proper⟩

theorem Layout.endMarked {position : Nat} {cs : List Char} {ts : List Token}
    (layout : Layout position cs ts) :
    ∃ body last, ts = body ++ [last] ∧ last.kind = .eof ∧ ∀ t ∈ body, t.kind ≠ .eof := by
  obtain ⟨body, ends, proper⟩ := layout.ending
  exact ⟨body, _, ends, rfl, fun t member => (proper t member).1⟩

theorem Layout.found {position : Nat} {cs : List Char} {ts : List Token}
    (layout : Layout position cs ts) :
    ∀ t ∈ ts, t.kind = .eof ∨
      ∃ c tail rest, t.lexeme = c :: tail ∧ Found c (tail ++ rest) t.kind tail := by
  induction layout with
  | finish blank => simp
  | @token position blanks t c tail rest ts blank visible start lexeme found more ih =>
    simp only [List.mem_cons, forall_eq_or_imp]
    exact ⟨.inr ⟨c, tail, rest, lexeme, found⟩, ih⟩

theorem Layout.placed {position : Nat} {cs : List Char} {ts : List Token}
    (layout : Layout position cs ts) :
    ∀ t ∈ ts, ∃ front back, cs = front ++ (t.lexeme ++ back) ∧ t.start = position + byteLength front := by
  induction layout with
  | @finish position blanks blank =>
    simp only [List.mem_singleton, forall_eq]
    exact ⟨blanks, [], by simp, rfl⟩
  | @token position blanks t c tail rest ts blank visible start lexeme found more ih =>
    simp only [List.mem_cons, forall_eq_or_imp]
    refine ⟨⟨blanks, rest, rfl, start⟩, fun u member => ?_⟩
    obtain ⟨front, back, rfl, place⟩ := ih u member
    refine ⟨blanks ++ (t.lexeme ++ front), back, by simp, ?_⟩
    simp [place, Token.stop, Token.length, start, Nat.add_assoc]

theorem Layout.slice {position : Nat} {cs : List Char} {ts : List Token}
    (layout : Layout position cs ts) {before : List Char} (behind : byteLength before = position) :
    ∀ t ∈ ts, slice? (before ++ cs) t.start t.stop = some t.lexeme := by
  intro t member
  obtain ⟨front, back, rfl, place⟩ := layout.placed t member
  have own := slice?_append (before ++ front) t.lexeme back
  simpa [Token.stop, Token.length, place, behind] using own

theorem tokenize_endMarked {source : String} {ts : List Token} (lexed : tokenize source = .ok ts) :
    ∃ body last, ts = body ++ [last] ∧ last.kind = .eof ∧ ∀ t ∈ body, t.kind ≠ .eof :=
  (tokenize_layout lexed).endMarked

theorem tokenize_slice {source : String} {ts : List Token} (lexed : tokenize source = .ok ts) :
    ∀ t ∈ ts, slice? source.toList t.start t.stop = some t.lexeme :=
  (tokenize_layout lexed).slice byteLength_nil

end ClauseSql.Lexing
