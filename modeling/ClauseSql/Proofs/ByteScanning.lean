import ClauseSql.Proofs.Keywords
import ClauseSql.Proofs.LexErrors
import ClauseSql.Proofs.Relexing
import ClauseSql.Token.Cursor

/-! Reading a source byte by byte. Only ASCII characters pass the tests of the scanner, and no byte of
another character does. A cursor that stands before a character therefore moves over whole characters, the
texts that it cuts out of the source are there, and going on from the beginning of a source it gives the
tokens of the source. -/
namespace ClauseSql

namespace Lexing

open Text

theorem bytes_append (as bs : List Char) : bytes (as ++ bs) = bytes as ++ bytes bs := List.flatMap_append

theorem length_bytes (cs : List Char) : (bytes cs).length = byteLength cs := by
  induction cs with
  | nil => rfl
  | cons c cs ih =>
    rw [← List.singleton_append, bytes_append, List.length_append, ih]
    simp [bytes]

/-- A character below `0x80` is one byte, and the bytes of the others are all above. -/
theorem encoded_cases {c : Char} {b : UInt8} (member : b ∈ String.utf8EncodeChar c) :
    c.toNat < 128 ∧ b.toNat = c.toNat ∨ 128 ≤ c.toNat ∧ 128 ≤ b.toNat := by
  have code : c.val.toNat = c.toNat := rfl
  have high {n : Nat} (least : 128 ≤ n) (most : n < 256) : 128 ≤ (UInt8.ofNat n).toNat := by
    rw [UInt8.toNat_ofNat']
    omega
  simp only [String.utf8EncodeChar, code] at member
  split at member
  · obtain rfl := List.mem_singleton.1 member
    left
    rw [UInt8.toNat_ofNat']
    omega
  · right
    refine ⟨by omega, ?_⟩
    split at member
    · simp only [List.mem_cons, List.not_mem_nil, or_false] at member
      obtain rfl | rfl := member <;> exact high (by omega) (by omega)
    · split at member
      · simp only [List.mem_cons, List.not_mem_nil, or_false] at member
        obtain rfl | rfl | rfl := member <;> exact high (by omega) (by omega)
      · simp only [List.mem_cons, List.not_mem_nil, or_false] at member
        obtain rfl | rfl | rfl | rfl := member <;> exact high (by omega) (by omega)

theorem encoded_ascii {c : Char} (ascii : c.toNat < 128) :
    String.utf8EncodeChar c = [UInt8.ofNat c.toNat] := by
  have small : c.val.toNat ≤ 0x7f := Nat.le_of_lt_succ ascii
  unfold String.utf8EncodeChar
  exact if_pos small

theorem bytes_cons (c : Char) (cs : List Char) :
    bytes (c :: cs) = String.utf8EncodeChar c ++ bytes cs := rfl

theorem encoded_cons (c : Char) :
    ∃ b more, String.utf8EncodeChar c = b :: more ∧ b ∈ String.utf8EncodeChar c := by
  obtain ⟨b, more, encoded⟩ : ∃ b more, String.utf8EncodeChar c = b :: more := by
    refine List.exists_cons_of_length_pos ?_
    rw [String.length_utf8EncodeChar]
    exact c.utf8Size_pos
  exact ⟨b, more, encoded, encoded ▸ List.mem_cons_self⟩

theorem toNat_ofByte (b : UInt8) : (Char.ofNat b.toNat).toNat = b.toNat := by
  have all : ∀ n < 256, (Char.ofNat n).toNat = n := by decide +kernel
  exact all b.toNat b.toNat_lt

theorem utf8Size_ascii {c : Char} (ascii : c.toNat < 128) : c.utf8Size = 1 := by
  rw [← String.length_utf8EncodeChar, encoded_ascii ascii]
  rfl

theorem startsWith_digits (cs : List Char) :
    (!(Numeral.digits cs).isEmpty) = startsWith Char.isDigit cs := by
  cases cs with
  | nil => rfl
  | cons c cs => cases digit : c.isDigit <;> simp [Numeral.digits, startsWith, digit]

end Lexing

namespace Cursor

open Text Token Lexing

/-- Only ASCII characters pass the test. -/
def Plain (test : Char → Bool) : Prop := ∀ c, test c = true → c.toNat < 128

theorem plain_eq {x : Char} (ascii : x.toNat < 128) : Plain (· == x) := by
  intro c same
  rwa [beq_iff_eq.1 same]

theorem Plain.or {first second : Char → Bool} (left : Plain first) (right : Plain second) :
    Plain fun c => first c || second c :=
  fun c holds => (Bool.or_eq_true_iff.1 holds).elim (left c) (right c)

theorem plain_name : Plain isNameChar := fun _ letter => (Keyword.isNameChar_ascii letter).2

theorem plain_start : Plain isNameStart := fun c letter => plain_name c (isNameChar_of_start letter)

theorem plain_continues : Plain continuesNumber := plain_name.or (plain_eq (by decide))

theorem plain_digit : Plain Char.isDigit := fun c digit => plain_continues c (continuesNumber_of_digit digit)

theorem plain_follow : Plain Dated.cannotFollow :=
  (plain_name.or (plain_eq (by decide))).or (plain_eq (by decide))

theorem plain_blank : Plain isBlank :=
  ((((plain_eq (by decide)).or (plain_eq (by decide))).or (plain_eq (by decide))).or
    (plain_eq (by decide))).or (plain_eq (by decide))

section Bytes

variable {test : Char → Bool} (plain : Plain test)
include plain

theorem Plain.eq_false {c : Char} (high : 128 ≤ c.toNat) : test c = false := by
  rw [Bool.eq_false_iff]
  intro holds
  have low := plain c holds
  omega

theorem Plain.onByte_eq {c : Char} {b : UInt8} (member : b ∈ String.utf8EncodeChar c) :
    onByte test b = test c := by
  obtain ⟨-, same⟩ | ⟨charHigh, byteHigh⟩ := encoded_cases member
  · rw [onByte, same, Char.ofNat_toNat]
  · rw [onByte, plain.eq_false charHigh, plain.eq_false ((toNat_ofByte b).symm ▸ byteHigh)]

theorem Plain.takeWhile_bytes (cs : List Char) :
    (bytes cs).takeWhile (onByte test) = bytes (cs.takeWhile test) := by
  induction cs with
  | nil => rfl
  | cons c cs ih =>
    rw [bytes_cons]
    cases holds : test c with
    | true =>
      have all : ∀ b ∈ String.utf8EncodeChar c, onByte test b = true :=
        fun b member => (plain.onByte_eq member).trans holds
      rw [List.takeWhile_append_of_pos all, ih, List.takeWhile_cons_of_pos holds, bytes_cons]
    | false =>
      obtain ⟨b, more, encoded, member⟩ := encoded_cons c
      have first : onByte test b = false := (plain.onByte_eq member).trans holds
      rw [encoded, List.cons_append, List.takeWhile_cons_of_neg (by simp [first]),
        List.takeWhile_cons_of_neg (by simp [holds])]
      rfl

theorem Plain.head_bytes (cs : List Char) :
    (bytes cs).head?.any (onByte test) = startsWith test cs := by
  cases cs with
  | nil => rfl
  | cons c cs =>
    obtain ⟨b, more, encoded, member⟩ := encoded_cons c
    rw [bytes_cons, encoded, List.cons_append, List.head?_cons, Option.any_some]
    exact plain.onByte_eq member

theorem Plain.any_bytes (cs : List Char) : (bytes cs).any (onByte test) = cs.any test := by
  rw [Bool.eq_iff_iff, List.any_eq_true, List.any_eq_true]
  constructor
  · rintro ⟨b, member, holds⟩
    obtain ⟨c, inside, encoded⟩ := List.mem_flatMap.1 member
    exact ⟨c, inside, (plain.onByte_eq encoded).symm.trans holds⟩
  · rintro ⟨c, inside, holds⟩
    obtain ⟨b, more, -, member⟩ := encoded_cons c
    exact ⟨b, List.mem_flatMap.2 ⟨c, inside, member⟩, (plain.onByte_eq member).trans holds⟩

end Bytes

theorem moved_moved (c : Cursor) (m n : Nat) : (c.moved m).moved n = c.moved (m + n) := by
  rw [moved, moved, moved, Nat.add_assoc]

/-- The cursor stands before the given characters. -/
def At (c : Cursor) (cs : List Char) : Prop :=
  ∃ front, c.source = front ++ cs ∧ c.offset = byteLength front

theorem at_ofSource (source : String) : (ofSource source).At source.toList := ⟨[], rfl, rfl⟩

section Places

variable {c : Cursor} {cs : List Char} (here : c.At cs)
include here

theorem At.ahead_eq : c.ahead = bytes cs := by
  obtain ⟨front, whole, offset⟩ := here
  rw [ahead, whole, offset, bytes_append, ← length_bytes, List.drop_left]

theorem At.dropBytes?_eq : dropBytes? c.source c.offset = some cs := by
  obtain ⟨front, whole, offset⟩ := here
  rw [whole, offset, dropBytes?_append]

theorem At.peek?_eq : c.peek? = (bytes cs).head? := by
  rw [← here.ahead_eq, ahead, List.head?_drop]
  rfl

theorem At.sees_eq {test : Char → Bool} (plain : Plain test) : c.sees test = startsWith test cs := by
  rw [← plain.head_bytes cs, ← here.peek?_eq]
  rfl

theorem At.consumeWhile_eq {test : Char → Bool} (plain : Plain test) :
    c.consumeWhile test = c.moved (byteLength (cs.takeWhile test)) := by
  rw [consumeWhile, here.ahead_eq, plain.takeWhile_bytes, length_bytes]

end Places

section Cuts

variable {c : Cursor} {cs text : List Char} (here : c.At cs) (begins : text <+: cs)
include here begins

theorem At.passed : (c.moved (byteLength text)).At (cs.drop text.length) := by
  obtain ⟨rest, rfl⟩ := begins
  obtain ⟨front, whole, offset⟩ := here
  rw [List.drop_left]
  exact ⟨front ++ text, by simpa [Cursor.moved] using whole, by simp [Cursor.moved, offset]⟩

theorem At.textFrom?_eq : (c.moved (byteLength text)).textFrom? c.offset = some text := by
  obtain ⟨rest, rfl⟩ := begins
  obtain ⟨front, whole, offset⟩ := here
  rw [textFrom?, Cursor.moved, whole, offset]
  exact slice?_append front text rest

theorem At.malformed_eq :
    malformed c.offset (c.moved (byteLength text)) =
      .error (.malformedNumber c.offset (String.ofList text)) := by
  rw [malformed, here.textFrom?_eq begins]

end Cuts

theorem At.tail {c : Cursor} {d : Char} {cs : List Char} (here : c.At (d :: cs)) (ascii : d.toNat < 128) :
    (c.moved 1).At cs :=
  utf8Size_ascii ascii ▸ At.passed here (List.prefix_append [d] cs)

theorem At.first_byte {c : Cursor} {d : Char} {cs : List Char} (here : c.At (d :: cs)) :
    ∃ b, c.peek? = some b ∧ b ∈ String.utf8EncodeChar d := by
  obtain ⟨b, more, encoded, member⟩ := encoded_cons d
  refine ⟨b, ?_, member⟩
  rw [here.peek?_eq, bytes_cons, encoded]
  rfl

theorem At.fraction_eq {c : Cursor} {cs : List Char} (here : c.At cs) :
    c.fraction =
      ((Numeral.fraction cs).wellFormed, c.moved (byteLength (Numeral.fraction cs).taken)) := by
  rw [fraction, here.sees_eq (plain_eq (by decide))]
  cases cs with
  | nil => rfl
  | cons d cs =>
    by_cases point : d = '.'
    · subst point
      have behind := here.tail (by decide)
      have places : Numeral.fraction ('.' :: cs) =
          ⟨'.' :: Numeral.digits cs, !(Numeral.digits cs).isEmpty⟩ := rfl
      have seen : startsWith (· == '.') ('.' :: cs) = true := rfl
      rw [places, startsWith_digits, if_pos seen]
      refine Prod.ext (behind.sees_eq plain_digit) ?_
      exact (behind.consumeWhile_eq plain_digit).trans (moved_moved c _ _)
    · simp [startsWith, Numeral.fraction, point, Cursor.moved]

theorem At.sign_eq {c : Cursor} {cs : List Char} (here : c.At cs) :
    (if c.sees fun b => b == '+' || b == '-' then c.moved 1 else c) =
      c.moved (byteLength (Numeral.sign cs)) := by
  rw [here.sees_eq ((plain_eq (by decide)).or (plain_eq (by decide)))]
  cases cs with
  | nil => rfl
  | cons d cs =>
    by_cases sign : d = '+' ∨ d = '-'
    · have one : byteLength [d] = 1 := by obtain rfl | rfl := sign <;> rfl
      simp only [startsWith, Numeral.sign, Bool.or_eq_true, beq_iff_eq, if_pos sign, one]
    · simp only [startsWith, Numeral.sign, Bool.or_eq_true, beq_iff_eq, if_neg sign]
      rfl

theorem At.exponent_eq {c : Cursor} {cs : List Char} (here : c.At cs) :
    c.exponent =
      ((Numeral.exponent cs).wellFormed, c.moved (byteLength (Numeral.exponent cs).taken)) := by
  rw [exponent, here.sees_eq ((plain_eq (by decide)).or (plain_eq (by decide)))]
  cases cs with
  | nil => rfl
  | cons d cs =>
    by_cases mark : d = 'e' ∨ d = 'E'
    · have ascii : d.toNat < 128 := by obtain rfl | rfl := mark <;> decide
      have behind := here.tail ascii
      have last := behind.passed (sign_isPrefix cs)
      have seen : startsWith (fun b => b == 'e' || b == 'E') (d :: cs) = true := by
        simpa [startsWith] using mark
      have power : Numeral.exponent (d :: cs) =
          ⟨d :: (Numeral.sign cs ++ Numeral.digits (cs.drop (Numeral.sign cs).length)),
            !(Numeral.digits (cs.drop (Numeral.sign cs).length)).isEmpty⟩ := if_pos mark
      rw [power, startsWith_digits, if_pos seen]
      dsimp only
      rw [behind.sign_eq, last.sees_eq plain_digit, last.consumeWhile_eq plain_digit, moved_moved,
        moved_moved, byteLength_cons, byteLength_append, utf8Size_ascii ascii]
      rfl
    · simp [startsWith, Numeral.exponent, mark, Cursor.moved]

/-- Where the number ends, and whether it is one, is what the scan of its characters says. -/
theorem At.number_eq {c : Cursor} {cs : List Char} (here : c.At cs) (start : Nat) :
    let stop := c.moved (byteLength (Numeral.scan cs).taken)
    c.number start =
      if (Numeral.scan cs).wellFormed then (.ok (.literal .number), stop)
      else (.error (malformed start (stop.consumeWhile continuesNumber)), stop) := by
  have whole := here.passed (digits_isPrefix cs)
  have places := whole.passed (fraction_isPrefix _)
  have power := places.passed (exponent_isPrefix _)
  have digits : c.consumeWhile Char.isDigit = c.moved (byteLength (Numeral.digits cs)) :=
    here.consumeWhile_eq plain_digit
  -- The scan goes on where the part before it ends, so it drops the same characters.
  have onward {taken : List Char} (front : List Char) :
      cs.drop (front ++ taken).length = (cs.drop front.length).drop taken.length := by
    rw [List.length_append, List.drop_drop]
  simp only [number, digits, whole.fraction_eq, places.exponent_eq, power.sees_eq plain_continues,
    Numeral.scan, Numeral.Scan.andThen, Numeral.ending, if_true, onward, List.append_nil]
  cases (Numeral.fraction (cs.drop (Numeral.digits cs).length)).wellFormed with
  | false => simp [moved_moved]
  | true =>
    simp only [if_true, onward]
    generalize Numeral.exponent _ = e
    cases e.wellFormed <;> simp [moved_moved, Nat.add_assoc]

def ended (c : Cursor) : Except Token.Failure (TokenKind × List Char) → Step TokenKind
  | .ok (kind, lexeme) => (.ok kind, c.moved (byteLength lexeme))
  | .error failure => (.error (.error failure.error), c.moved failure.consumed)

theorem At.scanNumber_eq {c : Cursor} (before : List Char) {cs : List Char} (here : c.At (before ++ cs)) :
    (c.moved (byteLength before)).number c.offset =
      c.ended ((scanNumber c.offset before cs).map fun lexeme => (.literal .number, lexeme)) := by
  have behind := here.passed (List.prefix_append before cs)
  rw [List.drop_left] at behind
  have begins : before ++ (Numeral.scan cs).taken <+: before ++ cs :=
    (List.prefix_append_right_inj before).2 (numeral_isPrefix cs)
  have shown : before ++ Numeral.malformed cs (Numeral.scan cs) <+: before ++ cs :=
    (List.prefix_append_right_inj before).2 (malformed_isPrefix cs)
  have stop := behind.passed (numeral_isPrefix cs)
  rw [behind.number_eq, stop.consumeWhile_eq plain_continues, moved_moved, moved_moved, scanNumber]
  cases (Numeral.scan cs).wellFormed with
  | true => simp [ended, Except.map]
  | false =>
    have named := here.malformed_eq shown
    simp only [Numeral.malformed, byteLength_append, ← Nat.add_assoc] at named
    simp [ended, Except.map, named, Numeral.malformed]

theorem At.scanFraction_eq {c : Cursor} {sign : Char} {cs : List Char} (here : c.At (sign :: '.' :: cs))
    (ascii : sign.toNat < 128) :
    (c.moved 1).signedFraction c.offset =
      c.ended ((scanFraction c.offset sign cs).map fun lexeme => (.literal .number, lexeme)) := by
  have point := (here.tail ascii).tail (by decide)
  have begins : sign :: '.' :: Numeral.digits cs <+: sign :: '.' :: cs := by
    simpa using digits_isPrefix cs
  have digits : ((c.moved 1).moved 1).consumeWhile Char.isDigit =
      c.moved (byteLength (sign :: '.' :: Numeral.digits cs)) := by
    rw [point.consumeWhile_eq plain_digit, moved_moved, moved_moved, byteLength_cons,
      utf8Size_ascii ascii]
    rfl
  have stop := here.passed begins
  simp only [signedFraction, digits, stop.sees_eq plain_continues, List.length_cons,
    List.drop_succ_cons, scanFraction]
  cases behind : cs.drop (Numeral.digits cs).length with
  | nil => rfl
  | cons d more =>
    cases goes : continuesNumber d with
    | true =>
      have shown : sign :: '.' :: (Numeral.digits cs ++ [d]) <+: sign :: '.' :: cs := by
        simpa using append_isPrefix (digits_isPrefix cs) ⟨more, behind.symm⟩
      have one := utf8Size_ascii (plain_continues d goes)
      have longer : byteLength (sign :: '.' :: (Numeral.digits cs ++ [d])) =
          byteLength (sign :: '.' :: Numeral.digits cs) + 1 := by
        simp [one, Nat.add_assoc]
      have named := here.malformed_eq shown
      rw [longer, ← moved_moved] at named
      simp only [startsWith, goes, if_true, named]
      rfl
    | false => simp [startsWith, goes, ended, Except.map]

theorem At.scanSigned_eq {c : Cursor} {sign : Char} {cs : List Char} (here : c.At (sign :: cs))
    (ascii : sign.toNat < 128) :
    (c.moved 1).signed c.offset sign =
      c.ended ((scanSigned c.offset sign cs).map fun lexeme => (.literal .number, lexeme)) := by
  have behind := here.tail ascii
  rw [signed, behind.sees_eq plain_digit, behind.sees_eq (plain_eq (by decide))]
  cases cs with
  | nil => rfl
  | cons d rest =>
    rw [scanSigned]
    cases digit : d.isDigit with
    | true =>
      have whole : (c.moved sign.utf8Size).number c.offset = _ := At.scanNumber_eq [sign] here
      rw [utf8Size_ascii ascii] at whole
      simpa [startsWith, digit] using whole
    | false =>
      by_cases point : d = '.'
      · subst point
        have places : (c.moved 1).seesAt 1 Char.isDigit = startsWith Char.isDigit rest :=
          (behind.tail (by decide)).sees_eq plain_digit
        rw [places]
        cases startsWith Char.isDigit rest with
        | true => simpa [startsWith] using here.scanFraction_eq ascii
        | false => simp [startsWith, ended, Except.map, scanSigned.refused]
      · simp [startsWith, digit, point, ended, Except.map, scanSigned.refused]

theorem At.dated_eq {c : Cursor} {cs : List Char} (here : c.At cs) :
    c.dated = match Dated.literal? cs with
      | none => (.ok none, c)
      | some (kind, lexeme) => (.ok (some kind), c.moved (byteLength lexeme)) := by
  rw [dated, here.dropBytes?_eq, Dated.literal?]
  dsimp only
  cases longest : Dated.longest? cs with
  | none => rfl
  | some found =>
    have stop := here.passed (longest?_isPrefix longest)
    simp only [stop.sees_eq plain_follow, Option.filter_some]
    cases startsWith Dated.cannotFollow (cs.drop found.2.length) <;> rfl

theorem At.scanDigit_eq {c : Cursor} {cs : List Char} (here : c.At cs) :
    c.digit c.offset = c.ended (scanDigit c.offset cs) := by
  rw [digit, here.dated_eq, scanDigit]
  cases Dated.literal? cs with
  | none => exact At.scanNumber_eq [] here
  | some found => rfl

theorem quotedLength?_other {b : UInt8} (apart : onByte (· == '\'') b = false) (rest : List UInt8) :
    quotedLength? (b :: rest) = (quotedLength? rest).map (· + 1) := by
  cases rest <;> simp [quotedLength?, apart]

theorem quotedLength?_quote (rest : List UInt8) :
    quotedLength? (0x27 :: rest) =
      if rest.head?.any (onByte (· == '\'')) then (quotedLength? rest.tail).map (· + 2)
      else some 1 := by
  cases rest <;> rfl

theorem quotedLength?_append {bs : List UInt8} (apart : ∀ b ∈ bs, onByte (· == '\'') b = false)
    (rest : List UInt8) : quotedLength? (bs ++ rest) = (quotedLength? rest).map (· + bs.length) := by
  induction bs with
  | nil => simp
  | cons b bs ih =>
    obtain ⟨first, others⟩ := List.forall_mem_cons.1 apart
    rw [List.cons_append, quotedLength?_other first, ih others, Option.map_map]
    rfl

theorem quotedLength?_bytes (cs : List Char) :
    quotedLength? (bytes cs) = (quotedRest? cs).map fun read => byteLength read.1 := by
  have plain : Plain (· == '\'') := plain_eq (by decide)
  have first (cs : List Char) : bytes ('\'' :: cs) = 0x27 :: bytes cs := rfl
  fun_induction quotedRest? cs with
  | case1 => rfl
  | case2 cs ih =>
    have pair : startsWith (· == '\'') ('\'' :: cs) = true := rfl
    rw [first, quotedLength?_quote, plain.head_bytes, first, List.tail_cons, ih, if_pos pair,
      Option.map_map, Option.map_map]
    refine Option.map_congr fun read _ => ?_
    exact (Nat.add_comm _ _).trans (Nat.add_assoc 1 1 _)
  | case3 cs single =>
    have none : startsWith (· == '\'') cs = false := by
      cases cs with
      | nil => rfl
      | cons d cs => exact beq_eq_false_iff_ne.2 fun quote => single cs (quote ▸ rfl)
    rw [first, quotedLength?_quote, plain.head_bytes, none]
    rfl
  | case4 c cs pair single ih =>
    have apart : ∀ b ∈ String.utf8EncodeChar c, onByte (· == '\'') b = false := by
      intro b member
      rw [plain.onByte_eq member]
      exact beq_eq_false_iff_ne.2 single
    rw [bytes_cons, quotedLength?_append apart, ih, String.length_utf8EncodeChar, Option.map_map,
      Option.map_map]
    exact Option.map_congr fun read _ => Nat.add_comm _ _

theorem At.scanString_eq {c : Cursor} {cs : List Char} (here : c.At ('\'' :: cs)) :
    (c.moved 1).string c.offset =
      c.ended ((scanString c.offset cs).map fun body => (.literal .string, '\'' :: body)) := by
  have behind := here.tail (by decide)
  rw [string, behind.ahead_eq, quotedLength?_bytes, length_bytes, scanString]
  cases quotedRest? cs with
  | none => exact Prod.ext rfl (moved_moved c _ _)
  | some read => exact Prod.ext rfl (moved_moved c _ _)

theorem nameRest_ascii (cs : List Char) : ∀ c ∈ nameRest cs, c.toNat < 128 := by
  induction cs with
  | nil => exact List.forall_mem_nil _
  | cons c cs ih =>
    rw [nameRest]
    split
    · next goes =>
      refine List.forall_mem_cons.2 ⟨?_, ih⟩
      obtain letter | slash := Bool.or_eq_true_iff.1 goes
      · exact plain_name c letter
      · exact plain_eq (by decide) c (Bool.and_eq_true_iff.1 slash).1
    · exact List.forall_mem_nil _

theorem nameLength_bytes (cs : List Char) : nameLength (bytes cs) = byteLength (nameRest cs) := by
  have slash : Plain (· == '/') := plain_eq (by decide)
  induction cs with
  | nil => rfl
  | cons c cs ih =>
    obtain ⟨b, more, encoded, member⟩ := encoded_cons c
    by_cases ascii : c.toNat < 128
    · rw [encoded_ascii ascii] at encoded
      cases encoded
      rw [bytes_cons, encoded_ascii ascii, List.singleton_append, nameLength,
        plain_name.onByte_eq member, slash.onByte_eq member, plain_start.head_bytes, nameRest, ih]
      split
      · rw [byteLength_cons, utf8Size_ascii ascii, Nat.add_comm]
      · rfl
    · have high := Nat.le_of_not_lt ascii
      rw [bytes_cons, encoded, List.cons_append, nameLength, nameRest, plain_name.onByte_eq member,
        slash.onByte_eq member, plain_name.eq_false high, slash.eq_false high]
      rfl

theorem map_bytes {cs : List Char} (ascii : ∀ c ∈ cs, c.toNat < 128) :
    (bytes cs).map (fun b => Char.ofNat b.toNat) = cs := by
  induction cs with
  | nil => rfl
  | cons c cs ih =>
    obtain ⟨first, others⟩ := List.forall_mem_cons.1 ascii
    rw [bytes_cons, encoded_ascii first, List.singleton_append, List.map_cons, ih others,
      UInt8.toNat_ofNat', Nat.mod_eq_of_lt (by omega), Char.ofNat_toNat]

theorem At.word_eq {c : Cursor} {cs text : List Char} (here : c.At cs) (begins : text <+: cs) :
    ((bytes c.source).take (c.moved (byteLength text)).offset).drop c.offset = bytes text := by
  obtain ⟨rest, rfl⟩ := begins
  obtain ⟨front, whole, offset⟩ := here
  simp [Cursor.moved, whole, offset, bytes_append, ← length_bytes, List.take_append]

theorem At.scanName_eq {c : Cursor} {d : Char} {cs : List Char} (here : c.At (d :: cs))
    (letter : isNameStart d = true) :
    (c.moved 1).name c.offset = c.ended (.ok ((scanName d cs).1, d :: (scanName d cs).2)) := by
  have ascii := plain_start d letter
  have behind := here.tail ascii
  have begins : d :: nameRest cs <+: d :: cs := by simpa using nameRest_isPrefix cs
  have stop := here.passed begins
  have ends : (c.moved 1).moved (nameLength (c.moved 1).ahead) =
      c.moved (byteLength (d :: nameRest cs)) := by
    rw [behind.ahead_eq, nameLength_bytes, moved_moved, byteLength_cons, utf8Size_ascii ascii]
  have word : ((bytes (c.moved 1).source).take (c.moved (byteLength (d :: nameRest cs))).offset).drop
      c.offset = bytes (d :: nameRest cs) := here.word_eq begins
  have letters : ∀ e ∈ d :: nameRest cs, e.toNat < 128 :=
    List.forall_mem_cons.2 ⟨ascii, nameRest_ascii cs⟩
  have slash : (bytes (d :: nameRest cs)).any (onByte (· == '/')) = (d :: nameRest cs).contains '/' := by
    rw [Plain.any_bytes (plain_eq (by decide)), List.contains_eq_any_beq]
    simp only [Bool.beq_comm]
  have paren : Plain (· == '(') := plain_eq (by decide)
  simp only [name, ends, word, slash, map_bytes letters, stop.sees_eq paren]
  rfl

theorem scanSigned_cons {start : Nat} {sign : Char} {cs lexeme : List Char}
    (scanned : scanSigned start sign cs = .ok lexeme) : sign :: lexeme.tail = lexeme := by
  obtain ⟨rfl, -⟩ | ⟨rest, -, -, rfl⟩ := scanSigned_ok scanned <;> rfl

theorem scanDigit_cons {start : Nat} {d : Char} {cs : List Char} {found : TokenKind × List Char}
    (digit : d.isDigit = true) (scanned : scanDigit start (d :: cs) = .ok found) :
    d :: found.2.tail = found.2 := by
  rw [scanDigit] at scanned
  split at scanned
  · next read =>
    cases scanned
    exact dated_cons read
  · obtain ⟨lexeme, number, equal⟩ := Outcome.map_eq_ok.1 scanned
    obtain ⟨rfl, formed⟩ := scanNumber_ok number
    cases equal
    exact numeral_cons digit formed

theorem At.unexpected_eq {c : Cursor} {d : Char} {cs : List Char} (here : c.At (d :: cs)) :
    (c.moved 1).unexpected c.offset =
      c.ended (.error { error := .unexpectedCharacter c.offset d, consumed := 1 }) := by
  have read : dropBytes? (c.moved 1).source c.offset = some (d :: cs) := here.dropBytes?_eq
  rw [unexpected, read]
  rfl

theorem not_first {d : Char} (high : 128 ≤ d.toNat) :
    (d ≠ '(' ∧ d ≠ ')' ∧ d ≠ ',' ∧ d ≠ '\'' ∧ ¬ (d = '+' ∨ d = '-')) ∧
      d.isDigit = false ∧ isNameStart d = false := by
  have other {x : Char} (ascii : x.toNat < 128) : d ≠ x := by
    rintro rfl
    omega
  refine ⟨⟨?_, ?_, ?_, ?_, not_or.2 ⟨?_, ?_⟩⟩, plain_digit.eq_false high, plain_start.eq_false high⟩
  all_goals exact other (by decide)

/-- The cursor, which looks at the first byte, finds the token that the scanner finds from the first
character. -/
theorem At.scan_eq {c : Cursor} {d : Char} {cs : List Char} (here : c.At (d :: cs)) {b : UInt8}
    (member : b ∈ String.utf8EncodeChar d) :
    c.scan (Char.ofNat b.toNat) =
      c.ended ((Token.scan c.offset d cs).map fun found => (found.1, d :: found.2)) := by
  obtain ⟨ascii, same⟩ | ⟨high, byteHigh⟩ := encoded_cases member
  · rw [same, Char.ofNat_toNat, Cursor.scan, Token.scan]
    dsimp only
    split
    · next paren => subst paren; rfl
    split
    · next paren => subst paren; rfl
    split
    · next comma => subst comma; rfl
    split
    · next quote =>
      subst quote
      rw [here.scanString_eq]
      cases scanString c.offset cs <;> rfl
    split
    · rw [here.scanSigned_eq ascii]
      cases scanned : scanSigned c.offset d cs with
      | error => rfl
      | ok lexeme => simp only [Except.map, scanSigned_cons scanned]
    split
    · next digit =>
      have again : c.digit c.offset = _ := here.scanDigit_eq
      refine again.trans ?_
      cases scanned : scanDigit c.offset (d :: cs) with
      | error => rfl
      | ok found => simp only [Except.map, scanDigit_cons digit scanned]
    split
    · next letter => exact here.scanName_eq letter
    · exact here.unexpected_eq
  · obtain ⟨⟨b₁, b₂, b₃, b₄, b₅⟩, b₆, b₇⟩ := not_first (toNat_ofByte b ▸ byteHigh)
    obtain ⟨⟨d₁, d₂, d₃, d₄, d₅⟩, d₆, d₇⟩ := not_first high
    rw [Cursor.scan, Token.scan]
    dsimp only
    rw [if_neg b₁, if_neg b₂, if_neg b₃, if_neg b₄, if_neg b₅, b₆, b₇]
    rw [if_neg d₁, if_neg d₂, if_neg d₃, if_neg d₄, if_neg d₅, d₆, d₇]
    exact here.unexpected_eq

theorem At.skipped {c : Cursor} {cs rest : List Char} {position : Nat} (here : c.At cs)
    (place : c.offset = position) (visible : cs.dropWhile isBlank = rest) :
    (c.consumeWhile isBlank).At rest ∧
      (c.consumeWhile isBlank).offset = position + byteLength (cs.takeWhile isBlank) := by
  have begins := List.takeWhile_prefix (l := cs) isBlank
  have split := List.takeWhile_append_dropWhile (p := isBlank) (l := cs)
  have dropped : cs.drop (cs.takeWhile isBlank).length = rest :=
    visible ▸ List.append_cancel_left ((List.prefix_iff_eq_append.1 begins).trans split.symm)
  rw [here.consumeWhile_eq plain_blank, ← dropped, ← place]
  exact ⟨here.passed begins, rfl⟩

theorem next_finished {c : Cursor} (begins : (c.consumeWhile isBlank).At []) :
    c.next = (.finished, c.consumeWhile isBlank) := by
  have sees : (c.consumeWhile isBlank).peek? = none := begins.peek?_eq
  simp only [next, sees]

section Steps

variable {c : Cursor} {d : Char} {rest : List Char} {start : Nat}
  (begins : (c.consumeWhile isBlank).At (d :: rest)) (place : (c.consumeWhile isBlank).offset = start)
include begins place

theorem next_failed {failure : Token.Failure} (scanned : Token.scan start d rest = .error failure) :
    ∃ stop, c.next = (.error failure.error, stop) := by
  obtain ⟨b, sees, member⟩ := begins.first_byte
  simp only [next, sees, begins.scan_eq member, place, scanned]
  exact ⟨_, rfl⟩

/-- The token that the scanner finds is cut out of the source, and the cursor stands behind it. -/
theorem next_token {kind : TokenKind} {tail : List Char}
    (scanned : Token.scan start d rest = .ok (kind, tail)) :
    ∃ stop, c.next = (.token ⟨kind, start, d :: tail⟩, stop) ∧
      stop.At (rest.drop tail.length) ∧ stop.offset = start + byteLength (d :: tail) := by
  obtain ⟨b, sees, member⟩ := begins.first_byte
  have lexeme : d :: tail <+: d :: rest := by simpa using (scan_found scanned).tail_isPrefix
  have cut := begins.textFrom?_eq lexeme
  rw [place] at cut
  simp only [next, sees, begins.scan_eq member, place, scanned, Except.map, ended, cut]
  refine ⟨_, rfl, begins.passed lexeme, ?_⟩
  rw [moved, place]

end Steps

/-- What the cursor gives from here on: all tokens with an end marker, or the first error. No text is
ever cut inside a character. -/
inductive Reads : Cursor → Except LexError (List Token) → Prop
  | finished {c stop : Cursor} (ends : c.next = (.finished, stop)) :
      Reads c (.ok [⟨.eof, stop.offset, []⟩])
  | token {c stop : Cursor} {t : Token} {ts : List Token} (taken : c.next = (.token t, stop))
      (later : Reads stop (.ok ts)) : Reads c (.ok (t :: ts))
  | later {c stop : Cursor} {t : Token} {error : LexError} (taken : c.next = (.token t, stop))
      (fails : Reads stop (.error error)) : Reads c (.error error)
  | error {c stop : Cursor} {error : LexError} (fails : c.next = (.error error, stop)) :
      Reads c (.error error)

theorem At.reads {c : Cursor} {cs : List Char} (here : c.At cs) : c.Reads (tokensFrom c.offset cs) := by
  generalize place : c.offset = position
  -- Along the tokens: behind each of them the cursor stands before a character again.
  fun_induction tokensFrom position cs generalizing c with
  | case1 position cs start =>
    rename_i visible
    obtain ⟨begins, same⟩ := here.skipped place visible
    have ends := Reads.finished (next_finished begins)
    rwa [same] at ends
  | case2 position cs start d rest visible failure =>
    rename_i scanned
    obtain ⟨begins, same⟩ := here.skipped place visible
    obtain ⟨stop, fails⟩ := next_failed begins same scanned
    exact .error fails
  | case3 position cs start d rest visible kind tail scanned token less error =>
    rename_i more ih
    obtain ⟨begins, same⟩ := here.skipped place visible
    obtain ⟨stop, taken, behind, ends⟩ := next_token begins same scanned
    have later := ih behind ends
    rw [more] at later
    exact .later taken later
  | case4 position cs start d rest visible kind tail scanned token less tokens =>
    rename_i more ih
    obtain ⟨begins, same⟩ := here.skipped place visible
    obtain ⟨stop, taken, behind, ends⟩ := next_token begins same scanned
    have later := ih behind ends
    rw [more] at later
    exact .token taken later

theorem reads_tokenize (source : String) : (ofSource source).Reads (tokenize source) :=
  (at_ofSource source).reads

end Cursor

end ClauseSql
