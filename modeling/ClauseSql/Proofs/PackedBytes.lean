import ClauseSql.Proofs.Keywords
import ClauseSql.Proofs.RecasedText

/-! Packed letters byte by byte. As long as all bytes of a word are ASCII, each of them becomes what it
would become alone. Capital letters become small. So would the bytes from `0x01` to `0x1a`, which look like
capital letters to the two sums; no name has such a byte, so names are looked up without regard to case. -/
namespace ClauseSql.Keyword

open Lexing Text

def byteAt (word : UInt64) (i : Nat) : UInt8 := UInt8.ofNat (word.toNat / 256 ^ i)

def Ascii (word : UInt64) : Prop := ∀ i < 8, byteAt word i < 0x80

/-- The bytes that differ from a capital letter only in bit six, which the sums do not test. -/
def isLowControl (b : UInt8) : Bool := 0x01 ≤ b && b ≤ 0x1a

def raised (b : UInt8) : UInt8 := if isLowControl b then b + 0x20 else lowerByte b

theorem toNat_upper (word : UInt64) : (word >>> 8).toNat = word.toNat / 256 := by
  rw [UInt64.toNat_shiftRight, Nat.shiftRight_eq_div_pow]
  rfl

theorem byteAt_upper (word : UInt64) (i : Nat) : byteAt (word >>> 8) i = byteAt word (i + 1) := by
  rw [byteAt, byteAt, toNat_upper, Nat.div_div_eq_div_mul, Nat.pow_succ']

theorem byteAt_high (word : UInt64) {i : Nat} (high : 8 ≤ i) : byteAt word i = 0 := by
  have bound : word.toNat < 256 ^ i :=
    calc word.toNat < 256 ^ 8 := word.toNat_lt
      _ ≤ 256 ^ i := Nat.pow_le_pow_right (by decide) high
  rw [byteAt, Nat.div_eq_of_lt bound]
  rfl

theorem Ascii.upper {word : UInt64} (ascii : Ascii word) : Ascii (word >>> 8) := by
  intro i _
  rw [byteAt_upper]
  by_cases inside : i + 1 < 8
  · exact ascii (i + 1) inside
  · rw [byteAt_high word (by omega)]
    decide

theorem toNat_shifted (b : UInt8) (x : UInt64) :
    (b.toUInt64 ||| (x <<< 8)).toNat = b.toNat + 256 * (x.toNat % 256 ^ 7) := by
  have byte : b.toNat < 256 := b.toNat_lt
  have amount : 2 ^ ((8 : UInt64).toNat % 64) = 256 := rfl
  rw [or_shifted (UInt8.toNat_toUInt64 b ▸ byte), UInt64.toNat_add, UInt64.toNat_shiftLeft,
    Nat.shiftLeft_eq, amount, UInt8.toNat_toUInt64]
  omega

theorem lowest_or_upper (word : UInt64) : (byteAt word 0).toUInt64 ||| ((word >>> 8) <<< 8) = word := by
  have lowest : (byteAt word 0).toNat = word.toNat % 256 := by
    rw [byteAt, Nat.pow_zero, Nat.div_one, UInt8.toNat_ofNat']
  have bound := word.toNat_lt
  rw [← UInt64.toNat_inj, toNat_shifted, toNat_upper, lowest]
  omega

theorem byteAt_shifted_zero (b : UInt8) (x : UInt64) : byteAt (b.toUInt64 ||| (x <<< 8)) 0 = b := by
  rw [byteAt, toNat_shifted, Nat.pow_zero, Nat.div_one, ← UInt8.toNat_inj, UInt8.toNat_ofNat']
  have byte := b.toNat_lt
  omega

theorem byteAt_shifted_succ (b : UInt8) (x : UInt64) {i : Nat} (inside : i + 1 < 8) :
    byteAt (b.toUInt64 ||| (x <<< 8)) (i + 1) = byteAt x i := by
  have byte : b.toNat < 256 := b.toNat_lt
  have above : (b.toNat + 256 * (x.toNat % 256 ^ 7)) / 256 = x.toNat % 256 ^ 7 := by omega
  have split : 256 ^ 7 = 256 ^ i * 256 ^ (7 - i) := by
    rw [← Nat.pow_add]
    congr 1
    omega
  have whole : 256 ∣ 256 ^ (7 - i) := dvd_pow_self 256 (by omega)
  have next : 256 ^ (i + 1) = 256 * 256 ^ i := Nat.pow_succ'
  rw [byteAt, byteAt, ← UInt8.toNat_inj, UInt8.toNat_ofNat', UInt8.toNat_ofNat', toNat_shifted, next,
    ← Nat.div_div_eq_div_mul, above, split, Nat.mod_mul_right_div_self]
  exact Nat.mod_mod_of_dvd _ whole

theorem lowerPacked_byte {b : UInt8} (ascii : b < 0x80) :
    lowerPacked b.toUInt64 = (raised b).toUInt64 := by
  have all : ∀ n < 128,
      lowerPacked (UInt8.ofNat n).toUInt64 = (raised (UInt8.ofNat n)).toUInt64 := by decide +kernel
  have here := all b.toNat (UInt8.lt_iff_toNat_lt.1 ascii)
  rwa [UInt8.ofNat_toNat] at here

theorem lowerPacked_eq {word : UInt64} (ascii : Ascii word) :
    lowerPacked word = (raised (byteAt word 0)).toUInt64 ||| (lowerPacked (word >>> 8) <<< 8) := by
  have lowest : byteAt word 0 < 0x80 := ascii 0 (by decide)
  have byte : (byteAt word 0).toUInt64.toNat < 128 := by
    rw [UInt8.toNat_toUInt64]
    exact UInt8.lt_iff_toNat_lt.1 lowest
  rw [← lowerPacked_byte lowest, ← lowerPacked_shifted byte, lowest_or_upper]

theorem byteAt_lowerPacked {word : UInt64} (ascii : Ascii word) {i : Nat} (inside : i < 8) :
    byteAt (lowerPacked word) i = raised (byteAt word i) := by
  induction i generalizing word with
  | zero => rw [lowerPacked_eq ascii, byteAt_shifted_zero]
  | succ i ih =>
    rw [lowerPacked_eq ascii, byteAt_shifted_succ _ _ inside, ih ascii.upper (by omega), byteAt_upper]

theorem raised_eq_lowerByte {b : UInt8} (ascii : b < 0x80) :
    raised b = lowerByte b ↔ isLowControl b = false := by
  have all : ∀ n < 128, raised (UInt8.ofNat n) = lowerByte (UInt8.ofNat n) ↔
      isLowControl (UInt8.ofNat n) = false := by decide +kernel
  have here := all b.toNat (UInt8.lt_iff_toNat_lt.1 ascii)
  rwa [UInt8.ofNat_toNat] at here

/-- Keywords are looked up without regard to the case of letters. In a packed word of ASCII bytes, each byte
becomes small by itself, unless it is one of those from `0x01` to `0x1a`, to which `0x20` is added as if they
were capital letters; so the letters of a word are made small and nothing else changes if and only if it has
no such byte. A name has none. It is a keyword of some kind if and only if its small letters spell a word of
that kind. -/
theorem packed_keywords_ignore_case (word : UInt64) (w : List Char) :
    (Ascii word →
      (∀ i < 8, byteAt (lowerPacked word) i =
        if isLowControl (byteAt word i) then byteAt word i + 0x20 else lowerByte (byteAt word i)) ∧
      ((∀ i < 8, byteAt (lowerPacked word) i = lowerByte (byteAt word i)) ↔
        ∀ i < 8, isLowControl (byteAt word i) = false)) ∧
    (w.all isNameChar = true →
      (∀ kind, find? w = some kind ↔ String.ofList (lower w) ∈ Spelling.words kind) ∧
      (find? w = none ↔ ∀ kind, String.ofList (lower w) ∉ Spelling.words kind)) := by
  refine ⟨fun ascii => ⟨fun i inside => byteAt_lowerPacked ascii inside, ?_⟩, fun letters => ?_⟩
  · refine forall₂_congr fun i inside => ?_
    rw [byteAt_lowerPacked ascii inside, raised_eq_lowerByte (ascii i inside)]
  · have spelled (kind : TokenKind) :
        find? w = some kind ↔ String.ofList (lower w) ∈ Spelling.words kind := by
      rw [Spelling.find?_iff letters]
      constructor
      · rintro ⟨s, word, same⟩
        rwa [same, String.ofList_toList]
      · intro word
        exact ⟨_, word, String.toList_ofList.symm⟩
    refine ⟨spelled, ?_⟩
    rw [Option.eq_none_iff_forall_ne_some]
    exact forall_congr' fun kind => not_congr (spelled kind)

/-- The word holds the bytes of "Hello Z_". -/
theorem packed_keywords_ignore_case_mixed :
    Ascii 0x5f5a206f6c6c6548 ∧
    (∀ i < 8, byteAt (lowerPacked 0x5f5a206f6c6c6548) i = lowerByte (byteAt 0x5f5a206f6c6c6548 i)) ∧
    "nULl".toList.all isNameChar = true ∧ find? "nULl".toList = some (.literal .null) := by
  have ascii : Ascii 0x5f5a206f6c6c6548 := by
    unfold Ascii
    decide
  have letters : "nULl".toList.all isNameChar = true := by decide
  obtain ⟨packed, names⟩ := packed_keywords_ignore_case 0x5f5a206f6c6c6548 "nULl".toList
  exact ⟨ascii, (packed ascii).2.2 (by decide), letters, ((names letters).1 _).2 (by decide)⟩

/-- The byte `0x01` becomes `0x21`, though it is no letter. -/
theorem lowerPacked_start_of_heading :
    Ascii 0x01 ∧ lowerPacked 0x01 = 0x21 ∧ byteAt (lowerPacked 0x01) 0 ≠ lowerByte (byteAt 0x01 0) := by
  unfold Ascii
  decide

end ClauseSql.Keyword
