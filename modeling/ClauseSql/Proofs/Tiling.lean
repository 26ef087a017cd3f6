import ClauseSql.Proofs.ByteScanning

/-! Tokens tile their source. They lie one behind the other, each on whole characters, and the bytes
between them are blanks; inside a token only a string has blanks. A source without tokens has an error at
one of its characters. -/
namespace ClauseSql.Lexing

open Text Token

theorem byteAt?_append (as bs : List Char) (n : Nat) :
    byteAt? (as ++ bs) n =
      if n < byteLength as then byteAt? as n else byteAt? bs (n - byteLength as) := by
  rw [byteAt?, bytes_append, List.getElem?_append, length_bytes]
  rfl

theorem mem_of_byteAt? {cs : List Char} {n : Nat} {b : UInt8} (here : byteAt? cs n = some b) :
    ∃ c ∈ cs, b ∈ String.utf8EncodeChar c :=
  List.mem_flatMap.1 (List.mem_of_getElem? here)

def isBlankByte (b : UInt8) : Bool :=
  b == 0x20 || b == 0x09 || b == 0x0a || b == 0x0c || b == 0x0d

theorem isBlankByte_eq {c : Char} {b : UInt8} (member : b ∈ String.utf8EncodeChar c) :
    isBlankByte b = isBlank c := by
  obtain ⟨small, same⟩ | ⟨charHigh, byteHigh⟩ := encoded_cases member
  · have ascii : ∀ n < 128, isBlankByte (UInt8.ofNat n) = isBlank (Char.ofNat n) := by decide
    have here := ascii c.toNat small
    rwa [Char.ofNat_toNat, ← same, UInt8.ofNat_toNat] at here
  · have byteOther : isBlankByte b = false := by
      rw [Bool.eq_false_iff]
      intro blank
      simp only [isBlankByte, Bool.or_eq_true, beq_iff_eq] at blank
      obtain (((rfl | rfl) | rfl) | rfl) | rfl := blank <;> exact absurd byteHigh (by decide)
    have charOther : isBlank c = false := by
      rw [Bool.eq_false_iff]
      intro blank
      simp only [isBlank, Bool.or_eq_true, beq_iff_eq] at blank
      obtain (((rfl | rfl) | rfl) | rfl) | rfl := blank <;> exact absurd charHigh (by decide)
    rw [byteOther, charOther]

def Solid (cs : List Char) : Prop := ∀ c ∈ cs, isBlank c = false

theorem Solid.nil : Solid [] := List.forall_mem_nil _

theorem Solid.append {as bs : List Char} (first : Solid as) (second : Solid bs) : Solid (as ++ bs) :=
  List.forall_mem_append.2 ⟨first, second⟩

theorem Solid.cons {c : Char} {cs : List Char} (first : isBlank c = false) (rest : Solid cs) :
    Solid (c :: cs) :=
  List.forall_mem_cons.2 ⟨first, rest⟩

theorem solid_of_all {test : Char → Bool} {cs : List Char} (all : cs.all test = true)
    (blanks : test ' ' = false ∧ test '\t' = false ∧ test '\n' = false ∧ test '\x0c' = false ∧
      test '\r' = false) : Solid cs :=
  fun c member => isBlank_of_test (List.all_eq_true.1 all c member) blanks

theorem solid_shape {shape : List Char} (plain : shape.all (fun p => !isBlank p) = true) : Solid shape :=
  solid_of_all plain (by decide)

theorem solid_digits {ds : List Char} (digits : ds.all Char.isDigit = true) : Solid ds :=
  solid_of_all digits (by decide)

theorem numeral_solid {cs : List Char} (formed : (Numeral.scan cs).wellFormed = true) :
    Solid (Numeral.scan cs).taken := by
  obtain ⟨places, power, fraction, exponent, taken⟩ := numeral_shape formed
  have areDigits {ds : List Char} (digits : Notation.areDigits ds = true) : Solid ds :=
    solid_digits (Bool.and_eq_true_iff.1 digits).2
  have first : Solid (Numeral.digits cs) := solid_digits List.all_takeWhile
  have second : Solid places := by
    obtain rfl | ⟨ds, rfl, digits⟩ := fraction
    · exact .nil
    · exact .cons rfl (areDigits digits)
  have third : Solid power := by
    obtain rfl | ⟨mark, sign, ds, rfl, letter, signs, digits⟩ := exponent
    · exact .nil
    · have mark_solid : isBlank mark = false := by obtain rfl | rfl := letter <;> rfl
      have sign_solid : Solid sign := by
        obtain rfl | rfl | rfl := signs <;> exact solid_shape rfl
      exact .cons mark_solid (sign_solid.append (areDigits digits))
  rw [taken]
  exact first.append (second.append third)

theorem shaped?_solid {shape cs taken : List Char} (plain : Solid shape)
    (read : Dated.shaped? shape cs = some taken) : Solid taken := by
  fun_induction Dated.shaped? shape cs generalizing taken with
  | case1 =>
    cases read
    exact plain
  | case2 => cases read
  | case3 p ps c cs fits ih =>
    obtain ⟨more, found, rfl⟩ := Option.map_eq_some_iff.mp read
    obtain ⟨first, rest⟩ := List.forall_mem_cons.1 plain
    refine .cons ?_ (ih rest found)
    split at fits
    · exact isBlank_of_test fits (by decide)
    · exact beq_iff_eq.1 fits ▸ first
  | case4 => cases read

theorem datedFraction_solid (cs : List Char) : Solid (Dated.fraction cs) := by
  obtain empty | ⟨places, taken, -, -, all⟩ := datedFraction_cases cs
  · rw [empty]
    exact .nil
  · rw [taken]
    exact .cons rfl (solid_of_all all (by decide))

theorem seconds_solid (cs : List Char) : Solid (Dated.seconds cs) := by
  unfold Dated.seconds
  split
  · exact .nil
  · next whole read => exact (shaped?_solid (solid_shape rfl) read).append (datedFraction_solid _)

theorem zone?_solid {cs zone : List Char} (read : Dated.zone? cs = some zone) : Solid zone := by
  obtain rfl | ⟨sign, _, offset, rfl | rfl, rfl, found⟩ := zone?_cases read
  · exact solid_shape rfl
  · exact .cons rfl (shaped?_solid (solid_shape rfl) found)
  · exact .cons rfl (shaped?_solid (solid_shape rfl) found)

theorem dated_solid {cs lexeme : List Char} {kind : LiteralKind}
    (read : Dated.literal? cs = some (kind, lexeme)) : Solid lexeme := by
  obtain ⟨day, found, ⟨-, rfl⟩ | ⟨time, later, -, rfl⟩⟩ := dated_cases read
  · exact shaped?_solid (solid_shape rfl) found
  · have first : Solid day := shaped?_solid (solid_shape rfl) found
    obtain ⟨minutes, zone, whole, last, rfl⟩ := time?_cases later
    have second : Solid minutes := shaped?_solid (solid_shape rfl) whole
    exact first.append ((second.append (seconds_solid _)).append (zone?_solid last))

theorem nameRest_solid (cs : List Char) : Solid (nameRest cs) := by
  induction cs with
  | nil => exact .nil
  | cons c cs ih =>
    rw [nameRest]
    split
    · next goes =>
      refine .cons ?_ ih
      obtain letter | slash := Bool.or_eq_true_iff.1 goes
      · exact isBlank_of_test letter (by decide)
      · obtain rfl := beq_iff_eq.1 (Bool.and_eq_true_iff.1 slash).1
        rfl
    · exact .nil

theorem Solid.tail {cs : List Char} (solid : Solid cs) : Solid cs.tail :=
  fun c member => solid c (List.mem_of_mem_tail member)

theorem Found.solid {c : Char} {cs tail : List Char} {kind : TokenKind} (found : Found c cs kind tail)
    (other : kind ≠ .literal .string) : Solid tail := by
  cases found with
  | openParen => exact .nil
  | closeParen => exact .nil
  | comma => exact .nil
  | string => exact absurd rfl other
  | signed sign digit formed => exact numeral_solid formed
  | signedFraction => exact .cons rfl (solid_digits List.all_takeWhile)
  | dated digit read => exact (dated_solid read).tail
  | number digit formed => exact (numeral_solid formed).tail
  | name => exact nameRest_solid _

theorem Layout.solid {position : Nat} {cs : List Char} {ts : List Token}
    (layout : Layout position cs ts) :
    ∀ t ∈ ts, t.kind ≠ .literal .string → Solid t.lexeme := by
  induction layout with
  | finish blank =>
    simp only [List.mem_singleton, forall_eq]
    exact fun _ => .nil
  | @token position blanks t c tail rest ts blank visible start lexeme found more ih =>
    simp only [List.mem_cons, forall_eq_or_imp]
    refine ⟨fun other => ?_, ih⟩
    rw [lexeme]
    exact .cons (Bool.eq_false_iff.2 visible) (found.solid other)

def Boundary (source : List Char) (position : Nat) : Prop :=
  ∃ front back, source = front ++ back ∧ byteLength front = position

def Covers (t : Token) (n : Nat) : Prop := t.start ≤ n ∧ n < t.stop

/-- The tokens cut the source into pieces. -/
structure Tiles (source : List Char) (tokens : List Token) : Prop where
  /-- One end marker stands at the end of the source, behind tokens that are not empty. -/
  ending : ∃ body, tokens = body ++ [⟨.eof, byteLength source, []⟩] ∧
    ∀ t ∈ body, t.kind ≠ .eof ∧ 0 < t.length
  /-- The tokens follow each other and do not overlap. -/
  ordered : tokens.Pairwise fun t u => t.start < u.start ∧ t.stop ≤ u.start
  boundaries : ∀ t ∈ tokens, Boundary source t.start ∧ Boundary source t.stop
  /-- A token has the text of its span. -/
  texts : ∀ t ∈ tokens, slice? source t.start t.stop = some t.lexeme
  /-- Nothing but blanks is left out. -/
  gaps : ∀ n b, byteAt? source n = some b → (∀ t ∈ tokens, ¬ Covers t n) → isBlankByte b = true
  /-- Only strings take up blanks. -/
  solid : ∀ t ∈ tokens, t.kind ≠ .literal .string →
    ∀ n b, byteAt? source n = some b → Covers t n → isBlankByte b = false

theorem Layout.ordered {position : Nat} {cs : List Char} {ts : List Token}
    (layout : Layout position cs ts) :
    ts.Pairwise fun t u => t.start < u.start ∧ t.stop ≤ u.start := by
  induction layout with
  | finish blank => exact List.pairwise_singleton _ _
  | @token position blanks t c tail rest ts blank visible start lexeme found more ih =>
    refine List.pairwise_cons.2 ⟨fun u member => ?_, ih⟩
    obtain ⟨front, back, -, place⟩ := more.placed u member
    have some := length_pos lexeme
    rw [place, Token.stop]
    omega

theorem Layout.gaps {position : Nat} {cs : List Char} {ts : List Token}
    (layout : Layout position cs ts) {n : Nat} {b : UInt8} (here : byteAt? cs n = some b)
    (free : ∀ t ∈ ts, ¬ Covers t (position + n)) : isBlankByte b = true := by
  induction layout generalizing n with
  | finish blank =>
    obtain ⟨c, inside, encoded⟩ := mem_of_byteAt? here
    rw [isBlankByte_eq encoded]
    exact blank c inside
  | @token position blanks t c tail rest ts blank visible start lexeme found more ih =>
    -- The byte lies in the blanks, in the token, or behind it.
    rw [byteAt?_append] at here
    split at here
    · obtain ⟨c, inside, encoded⟩ := mem_of_byteAt? here
      rw [isBlankByte_eq encoded]
      exact blank c inside
    rw [byteAt?_append] at here
    split at here
    · refine absurd ?_ (free t List.mem_cons_self)
      rw [Covers, Token.stop, Token.length, start]
      omega
    · refine ih here fun u member => ?_
      have same : t.stop + (n - byteLength blanks - byteLength t.lexeme) = position + n := by
        rw [Token.stop, Token.length, start]
        omega
      rw [same]
      exact free u (List.mem_cons_of_mem t member)

theorem Layout.tiles {source : List Char} {ts : List Token} (layout : Layout 0 source ts) :
    Tiles source ts where
  ending := by simpa only [Nat.zero_add] using layout.ending
  ordered := layout.ordered
  boundaries t member := by
    obtain ⟨front, back, rfl, place⟩ := layout.placed t member
    rw [Nat.zero_add] at place
    refine ⟨⟨front, t.lexeme ++ back, rfl, place.symm⟩, front ++ t.lexeme, back, by simp, ?_⟩
    rw [byteLength_append, Token.stop, place, Token.length]
  texts := layout.slice byteLength_nil
  gaps n b here free := layout.gaps here (by simpa only [Nat.zero_add] using free)
  solid t member other n b here covers := by
    obtain ⟨front, back, rfl, place⟩ := layout.placed t member
    rw [Covers, Token.stop, Token.length, place] at covers
    rw [byteAt?_append, if_neg (by omega), byteAt?_append, if_pos (by omega)] at here
    obtain ⟨c, inside, encoded⟩ := mem_of_byteAt? here
    rw [isBlankByte_eq encoded]
    exact layout.solid t member other c inside

/-- The error stands at a character of the source, and an unexpected character is the one there. -/
structure Located (source : List Char) (error : LexError) : Prop where
  boundary : Boundary source error.position
  inside : error.position < byteLength source
  character : ∀ p c, error = .unexpectedCharacter p c → ∃ rest, dropBytes? source p = some (c :: rest)

theorem Failed.located {c : Char} {front rest : List Char} {error : LexError}
    (failed : Failed (byteLength front) c rest error) : Located (front ++ c :: rest) error where
  boundary := ⟨front, c :: rest, rfl, failed.position.symm⟩
  inside := by
    have some := c.utf8Size_pos
    rw [failed.position, byteLength_append, byteLength_cons]
    omega
  character p d same := by
    have points := failed.points
    rwa [same] at points

/-- A source is tiled by its tokens, or has none because of an error inside it. -/
theorem tokens_tile_the_source (source : String) :
    match tokenize source with
    | .ok tokens => Tiles source.toList tokens
    | .error error => Located source.toList error := by
  split
  · next tokens lexed => exact (tokenize_layout lexed).tiles
  · next error failed =>
    obtain ⟨front, c, rest, whole, failed⟩ := tokenize_failed failed
    rw [whole]
    exact failed.located

end ClauseSql.Lexing
