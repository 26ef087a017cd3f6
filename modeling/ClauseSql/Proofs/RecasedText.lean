import ClauseSql.Proofs.Spelling
import ClauseSql.Proofs.Tiling

/-! Sources in which letters have changed their case. Which letters may change is said of bytes. Letters
are ASCII and the bytes of other characters have no case, so such sources also agree character by
character. -/
namespace ClauseSql

def TokenKind.isCaseless : TokenKind → Bool
  | .operator _ => true
  | .not => true
  | .asWord => true
  | .literal .boolean => true
  | .literal .null => true
  | .functionName => true
  | _ => false

namespace Lexing

open Text Token

def lowerByte (b : UInt8) : UInt8 := if 0x41 ≤ b ∧ b ≤ 0x5a then b + 0x20 else b

def CaseFree (ts : List Token) (n : Nat) : Prop := ∃ t ∈ ts, t.kind.isCaseless = true ∧ Covers t n

/-- The other source has the same bytes, up to the case of letters where it is free. -/
structure Recased (ts : List Token) (source other : List Char) : Prop where
  length : byteLength other = byteLength source
  bytes : ∀ n < byteLength source, byteAt? other n = byteAt? source n ∨
    CaseFree ts n ∧ (byteAt? other n).map lowerByte = (byteAt? source n).map lowerByte

instance (t : Token) (n : Nat) : Decidable (Covers t n) :=
  inferInstanceAs (Decidable (t.start ≤ n ∧ n < t.stop))

instance (ts : List Token) (n : Nat) : Decidable (CaseFree ts n) :=
  inferInstanceAs (Decidable (∃ t ∈ ts, t.kind.isCaseless = true ∧ Covers t n))

instance (ts : List Token) (source other : List Char) : Decidable (Recased ts source other) :=
  decidable_of_iff
    (byteLength other = byteLength source ∧
      ∀ n < byteLength source, byteAt? other n = byteAt? source n ∨
        CaseFree ts n ∧ (byteAt? other n).map lowerByte = (byteAt? source n).map lowerByte)
    ⟨fun both => ⟨both.1, both.2⟩, fun recased => ⟨recased.length, recased.bytes⟩⟩

/-- The same for the characters of a text that begins at byte `position`. -/
inductive RecasedFrom (ts : List Token) : Nat → List Char → List Char → Prop
  | nil {position : Nat} : RecasedFrom ts position [] []
  | same {position : Nat} {c : Char} {cs ds : List Char} :
      RecasedFrom ts (position + c.utf8Size) cs ds → RecasedFrom ts position (c :: cs) (c :: ds)
  | letter {position : Nat} {c d : Char} {cs ds : List Char} :
      CaseFree ts position → d.toLower = c.toLower → RecasedFrom ts (position + c.utf8Size) cs ds →
      RecasedFrom ts position (c :: cs) (d :: ds)

theorem char_eq_of_encoded {c d : Char} {x y : List UInt8}
    (same : String.utf8EncodeChar c ++ x = String.utf8EncodeChar d ++ y) : c = d := by
  have left := ByteArray.utf8DecodeChar?_utf8EncodeChar_append (b := x.toByteArray) (c := c)
  have right := ByteArray.utf8DecodeChar?_utf8EncodeChar_append (b := y.toByteArray) (c := d)
  rw [← List.toByteArray_append] at left right
  rw [same, right] at left
  exact (Option.some.inj left).symm

theorem lowerByte_high {b : UInt8} (high : 128 ≤ b.toNat) : lowerByte b = b := by
  have other : ¬ (0x41 ≤ b ∧ b ≤ 0x5a) := by
    simp only [UInt8.le_iff_toNat_le]
    have bound : (0x5a : UInt8).toNat = 90 := rfl
    omega
  exact if_neg other

theorem lowerByte_low {b : UInt8} (low : b.toNat < 128) : (lowerByte b).toNat < 128 := by
  have all : ∀ n < 128, (lowerByte (UInt8.ofNat n)).toNat < 128 := by decide
  simpa using all b.toNat low

theorem lowerByte_eq {a b : UInt8} (same : lowerByte a = lowerByte b) (high : 128 ≤ b.toNat) :
    a = b := by
  rw [lowerByte_high high] at same
  by_cases low : a.toNat < 128
  · have small := lowerByte_low low
    rw [same] at small
    omega
  · rwa [lowerByte_high (by omega)] at same

theorem lowerByte_char {c : Char} (ascii : c.toNat < 128) :
    lowerByte (UInt8.ofNat c.toNat) = UInt8.ofNat c.toLower.toNat := by
  have all : ∀ n < 128, lowerByte (UInt8.ofNat n) = UInt8.ofNat (Char.ofNat n).toLower.toNat := by
    decide
  simpa using all c.toNat ascii

theorem toLower_ascii {c : Char} (ascii : c.toNat < 128) : c.toLower.toNat < 128 := by
  have all : ∀ n < 128, (Char.ofNat n).toLower.toNat < 128 := by decide
  simpa using all c.toNat ascii

theorem ascii_recased {c d : Char} {b : UInt8} (ascii : c.toNat < 128)
    (member : b ∈ String.utf8EncodeChar d) (same : lowerByte b = lowerByte (UInt8.ofNat c.toNat)) :
    d.toNat < 128 ∧ d.toLower = c.toLower := by
  have code : (UInt8.ofNat c.toNat).toNat = c.toNat := by
    rw [UInt8.toNat_ofNat']
    omega
  obtain ⟨low, here⟩ | ⟨-, high⟩ := encoded_cases member
  · refine ⟨low, ?_⟩
    rw [← UInt8.ofNat_toNat (x := b), here, lowerByte_char low, lowerByte_char ascii] at same
    have left := toLower_ascii low
    have right := toLower_ascii ascii
    have equal := congrArg UInt8.toNat same
    rw [UInt8.toNat_ofNat', UInt8.toNat_ofNat', Nat.mod_eq_of_lt (by omega),
      Nat.mod_eq_of_lt (by omega)] at equal
    exact Char.toNat_inj.1 equal
  · rw [lowerByte_eq same.symm high] at code
    omega

theorem first_recased {ts : List Token} {position : Nat} {c d : Char} {cs ds : List Char}
    (same : ∀ n < c.utf8Size, byteAt? (d :: ds) n = byteAt? (c :: cs) n ∨
      CaseFree ts (position + n) ∧
        (byteAt? (d :: ds) n).map lowerByte = (byteAt? (c :: cs) n).map lowerByte) :
    d = c ∨ CaseFree ts position ∧ d.toLower = c.toLower ∧ d.utf8Size = c.utf8Size := by
  have size := String.length_utf8EncodeChar c
  by_cases ascii : c.toNat < 128
  · have here : byteAt? (c :: cs) 0 = some (UInt8.ofNat c.toNat) := by
      rw [byteAt?, bytes_cons, encoded_ascii ascii]
      rfl
    have filled : String.utf8EncodeChar d ≠ [] := by
      rw [← List.length_pos_iff, String.length_utf8EncodeChar]
      exact d.utf8Size_pos
    obtain ⟨b, more, encoded⟩ := List.exists_cons_of_ne_nil filled
    have there : byteAt? (d :: ds) 0 = some b := by
      rw [byteAt?, bytes_cons, encoded]
      rfl
    have first := same 0 c.utf8Size_pos
    rw [here, there] at first
    obtain equal | ⟨free, equal⟩ := first
    · left
      have split : String.utf8EncodeChar d ++ [] = String.utf8EncodeChar c ++ more := by
        rw [encoded, encoded_ascii ascii, Option.some.inj equal, List.append_nil]
        rfl
      exact char_eq_of_encoded split
    · right
      have member : b ∈ String.utf8EncodeChar d := encoded ▸ List.mem_cons_self
      obtain ⟨low, lower⟩ := ascii_recased ascii member (Option.some.inj equal)
      refine ⟨free, lower, ?_⟩
      rw [← String.length_utf8EncodeChar, ← size, encoded_ascii low, encoded_ascii ascii]
      rfl
  · -- Bytes of other characters have no case, so the encoded character stands in both sources.
    left
    have whole : String.utf8EncodeChar c <+: bytes (d :: ds) := by
      rw [List.prefix_iff_getElem?]
      intro n inside
      have high : 128 ≤ ((String.utf8EncodeChar c)[n]).toNat := by
        obtain ⟨low, -⟩ | ⟨-, high⟩ := encoded_cases (List.getElem_mem inside)
        · exact absurd low ascii
        · exact high
      have here : byteAt? (c :: cs) n = some (String.utf8EncodeChar c)[n] := by
        rw [byteAt?, bytes_cons, List.getElem?_append_left inside, List.getElem?_eq_getElem inside]
      obtain equal | ⟨-, equal⟩ := same n (size ▸ inside)
      · exact equal.trans here
      · rw [here, Option.map_some, Option.map_eq_some_iff] at equal
        obtain ⟨b, there, equal⟩ := equal
        rw [lowerByte_eq equal high] at there
        exact there
    obtain ⟨rest, split⟩ := whole
    rw [bytes_cons] at split
    exact (char_eq_of_encoded split).symm

theorem recasedFrom_of_bytes {ts : List Token} {position : Nat} {cs ds : List Char}
    (length : byteLength ds = byteLength cs)
    (same : ∀ n < byteLength cs, byteAt? ds n = byteAt? cs n ∨ CaseFree ts (position + n) ∧
      (byteAt? ds n).map lowerByte = (byteAt? cs n).map lowerByte) :
    RecasedFrom ts position cs ds := by
  induction cs generalizing position ds with
  | nil =>
    cases ds with
    | nil => exact .nil
    | cons d ds =>
      have positive := d.utf8Size_pos
      simp only [byteLength_cons, byteLength_nil] at length
      omega
  | cons c cs ih =>
    cases ds with
    | nil =>
      have positive := c.utf8Size_pos
      simp only [byteLength_cons, byteLength_nil] at length
      omega
    | cons d ds =>
      rw [byteLength_cons, byteLength_cons] at length
      have first := first_recased fun n inside => same n (by rw [byteLength_cons]; omega)
      have size : d.utf8Size = c.utf8Size := by
        obtain rfl | ⟨-, -, size⟩ := first
        · rfl
        · exact size
      have behind (e : Char) (es : List Char) (n : Nat) :
          byteAt? (e :: es) (e.utf8Size + n) = byteAt? es n := by
        rw [← List.singleton_append, byteAt?_append, if_neg (by simp)]
        simp
      have rest : RecasedFrom ts (position + c.utf8Size) cs ds := by
        refine ih (by omega) fun n inside => ?_
        have here := same (c.utf8Size + n) (by rw [byteLength_cons]; omega)
        rw [behind, ← size, behind, size, ← Nat.add_assoc] at here
        exact here
      obtain rfl | ⟨free, lower, -⟩ := first
      · exact .same rest
      · exact .letter free lower rest

theorem Recased.chars {ts : List Token} {source other : List Char} (recased : Recased ts source other) :
    RecasedFrom ts 0 source other :=
  recasedFrom_of_bytes recased.length fun n inside => by
    rw [Nat.zero_add]
    exact recased.bytes n inside

theorem utf8Size_toLower (c : Char) : c.toLower.utf8Size = c.utf8Size := by
  obtain upper | same := Spelling.toLower_cases c
  · have letter := isNameChar_of_start (isNameStart_of_upper upper)
    have ascii := (Keyword.isNameChar_ascii letter).2
    rw [← String.length_utf8EncodeChar, ← String.length_utf8EncodeChar, encoded_ascii ascii,
      encoded_ascii (toLower_ascii ascii)]
    rfl
  · rw [same]

theorem byteLength_lower (cs : List Char) : byteLength (lower cs) = byteLength cs := by
  induction cs with
  | nil => rfl
  | cons c cs ih => exact congrArg₂ (· + ·) (utf8Size_toLower c) ih

namespace RecasedFrom

variable {ts us : List Token} {position : Nat}

theorem lower {cs ds : List Char} (recased : RecasedFrom ts position cs ds) : lower ds = lower cs := by
  induction recased with
  | nil => rfl
  | same _ ih => exact congrArg (List.cons _) ih
  | letter _ same _ ih => exact congrArg₂ List.cons same ih

theorem split {as bs ds : List Char} (recased : RecasedFrom ts position (as ++ bs) ds) :
    ∃ cs es, ds = cs ++ es ∧ RecasedFrom ts position as cs ∧
      RecasedFrom ts (position + byteLength as) bs es := by
  induction as generalizing position ds with
  | nil => exact ⟨[], ds, rfl, .nil, recased⟩
  | cons a as ih =>
    cases recased with
    | same rest =>
      obtain ⟨cs, es, rfl, front, back⟩ := ih rest
      rw [byteLength_cons, ← Nat.add_assoc]
      exact ⟨a :: cs, es, rfl, .same front, back⟩
    | @letter _ _ d _ _ free equal rest =>
      obtain ⟨cs, es, rfl, front, back⟩ := ih rest
      rw [byteLength_cons, ← Nat.add_assoc]
      exact ⟨d :: cs, es, rfl, .letter free equal front, back⟩

theorem eq_of_fixed {cs ds : List Char} (recased : RecasedFrom ts position cs ds)
    (fixed : ∀ n, position ≤ n → n < position + byteLength cs → ¬ CaseFree ts n) : ds = cs := by
  induction recased with
  | nil => rfl
  | @same position c cs ds _ ih =>
    have rest := ih fun n low high => fixed n (by omega) (by rw [byteLength_cons]; omega)
    rw [rest]
  | @letter position c d cs ds free _ _ _ =>
    have positive := c.utf8Size_pos
    exact absurd free (fixed position (Nat.le_refl _) (by rw [byteLength_cons]; omega))

theorem mono {cs ds : List Char} (recased : RecasedFrom ts position cs ds)
    (free : ∀ n, position ≤ n → CaseFree ts n → CaseFree us n) : RecasedFrom us position cs ds := by
  induction recased with
  | nil => exact .nil
  | same _ ih => exact .same (ih fun n low => free n (by omega))
  | letter here equal _ ih =>
    exact .letter (free _ (Nat.le_refl _) here) equal (ih fun n low => free n (by omega))

theorem token {t : Token} {blanks rest ds : List Char} (start : t.start = position + byteLength blanks)
    (later : ∀ u ∈ ts, t.stop ≤ u.start)
    (recased : RecasedFrom (t :: ts) position (blanks ++ (t.lexeme ++ rest)) ds) :
    ∃ lexeme more, ds = blanks ++ (lexeme ++ more) ∧ Text.lower lexeme = Text.lower t.lexeme ∧
      (t.kind.isCaseless = false → lexeme = t.lexeme) ∧ RecasedFrom ts t.stop rest more := by
  obtain ⟨front, back, rfl, first, second⟩ := recased.split
  obtain ⟨lexeme, more, rfl, own, others⟩ := second.split
  rw [← start] at own others
  have ordered : t.start ≤ t.stop := Nat.le_add_right _ _
  have none : front = blanks := by
    refine first.eq_of_fixed fun n _ high free => ?_
    obtain ⟨u, member, -, low, -⟩ := free
    obtain rfl | member := List.mem_cons.1 member
    · omega
    · have behind := later u member
      omega
  refine ⟨lexeme, more, by rw [none], own.lower, fun fixed => ?_, ?_⟩
  · refine own.eq_of_fixed fun n _ high free => ?_
    obtain ⟨u, member, caseless, low, -⟩ := free
    obtain rfl | member := List.mem_cons.1 member
    · rw [fixed] at caseless
      cases caseless
    · have behind := later u member
      rw [Token.stop, Token.length] at behind
      omega
  · refine RecasedFrom.mono others fun n low free => ?_
    obtain ⟨u, member, caseless, covers⟩ := free
    obtain rfl | member := List.mem_cons.1 member
    · have high := covers.2
      omega
    · exact ⟨u, member, caseless, covers⟩

end RecasedFrom

end Lexing

end ClauseSql
