import ClauseSql.Token.Keyword
import Mathlib.Data.List.Basic
import Mathlib.Data.List.Find
import Mathlib.Data.Nat.Digits.Defs

/-! Looking up a keyword. No byte of a packed name reaches `0x80`, so neither of the two sums carries
from one byte into the next, and making the packed letters small is making each of them small. The
number of a word that fits in eight bytes determines the word. A name is therefore looked up by its
small letters. -/
namespace ClauseSql.Keyword

open Text

theorem getLsbD_byte {b : UInt64} (byte : b.toNat < 256) {i : Nat} (high : 8 ≤ i) :
    b.toBitVec.getLsbD i = false := by
  rw [← BitVec.testBit_toNat]
  have grows : 2 ^ 8 ≤ 2 ^ i := Nat.pow_le_pow_right (by decide) high
  exact Nat.testBit_lt_two_pow (Nat.lt_of_lt_of_le byte grows)

theorem getLsbD_shifted (x : UInt64) (i : Nat) :
    (x <<< 8).toBitVec.getLsbD i =
      (decide (i < 64) && !decide (i < 8) && x.toBitVec.getLsbD (i - 8)) := by
  rw [UInt64.toBitVec_shiftLeft]
  exact BitVec.getLsbD_shiftLeft x.toBitVec 8

theorem or_shifted {b : UInt64} (byte : b.toNat < 256) (x : UInt64) : b ||| (x <<< 8) = b + (x <<< 8) := by
  rw [← UInt64.toBitVec_inj, UInt64.toBitVec_or, UInt64.toBitVec_add]
  refine (BitVec.add_eq_or_of_and_eq_zero _ _ ?_).symm
  refine BitVec.eq_of_getLsbD_eq fun i _ => ?_
  rw [BitVec.getLsbD_and, BitVec.getLsbD_zero, Bool.and_eq_false_iff]
  by_cases low : i < 8
  · right
    simp [low]
  · exact .inl (getLsbD_byte byte (Nat.le_of_not_lt low))

def Repeats (byte word : UInt64) : Prop := byte ||| (word <<< 8) = word

/-- Adding such a word adds its byte to the lowest byte, as long as that does not carry, and adds the
word to what is above. -/
theorem add_repeated {b k y : UInt64} (repeats : Repeats k y) (carry : b.toNat + k.toNat < 256)
    (x : UInt64) : (b ||| (x <<< 8)) + y = (b + k) ||| ((x + y) <<< 8) := by
  have sum : (b + k).toNat < 256 := by
    rw [UInt64.toNat_add]
    omega
  have shift : (x + y) <<< 8 = (x <<< 8) + (y <<< 8) := by
    rw [← UInt64.toBitVec_inj]
    simp only [UInt64.toBitVec_shiftLeft, UInt64.toBitVec_add]
    exact BitVec.shiftLeft_add_distrib
  calc (b ||| (x <<< 8)) + y
      = (b + (x <<< 8)) + (k + (y <<< 8)) := by
        rw [or_shifted (by omega), ← or_shifted (by omega) y, repeats]
    _ = (b + k) + ((x <<< 8) + (y <<< 8)) := by ac_rfl
    _ = (b + k) ||| ((x + y) <<< 8) := by rw [← shift, ← or_shifted sum]

theorem or_and_shifted {b p q f : UInt64} (byte : b.toNat < 256) (first : p.toNat < 256)
    (second : q.toNat < 256) (mask : f.toNat < 256) (x y z w : UInt64) :
    (b ||| (x <<< 8)) ||| ((p ||| (y <<< 8)) &&& ~~~(q ||| (z <<< 8)) &&& (f ||| (w <<< 8))) =
      (b ||| (p &&& ~~~q &&& f)) ||| ((x ||| (y &&& ~~~z &&& w)) <<< 8) := by
  rw [← UInt64.toBitVec_inj]
  refine BitVec.eq_of_getLsbD_eq fun i inside => ?_
  -- Below bit eight the shifted words have no bits, and from there on the bytes have none.
  by_cases low : i < 8
  · simp only [UInt64.toBitVec_or, UInt64.toBitVec_and, UInt64.toBitVec_not, BitVec.getLsbD_or,
      BitVec.getLsbD_and, BitVec.getLsbD_not, getLsbD_shifted, low, decide_true, Bool.not_true,
      Bool.and_false, Bool.false_and, Bool.or_false]
  · have high := Nat.le_of_not_lt low
    have rest : i - 8 < 64 := Nat.lt_of_le_of_lt (Nat.sub_le i 8) inside
    simp only [UInt64.toBitVec_or, UInt64.toBitVec_and, UInt64.toBitVec_not, BitVec.getLsbD_or,
      BitVec.getLsbD_and, BitVec.getLsbD_not, getLsbD_shifted, low, inside, rest, decide_true,
      decide_false, Bool.not_false, Bool.true_and, getLsbD_byte byte high, getLsbD_byte first high,
      getLsbD_byte second high, getLsbD_byte mask high, Bool.false_or, Bool.false_and, Bool.and_false]

theorem lowerPacked_shifted {b : UInt64} (byte : b.toNat < 128) (x : UInt64) :
    lowerPacked (b ||| (x <<< 8)) = lowerPacked b ||| (lowerPacked x <<< 8) := by
  have step (x : UInt64) : lowerPacked (b ||| (x <<< 8)) =
      (b ||| ((b + 0x1f) &&& ~~~(b + 0x05) &&& 0x20 : UInt64)) ||| (lowerPacked x <<< 8) := by
    have fits (k : UInt64) (small : k.toNat < 128) : b.toNat + k.toNat < 256 :=
      Nat.add_lt_add byte small
    have sum (k : UInt64) (small : k.toNat < 128) : (b + k).toNat < 256 := by
      rw [UInt64.toNat_add]
      exact Nat.lt_of_le_of_lt (Nat.mod_le _ _) (fits k small)
    have first : Repeats 0x1f 0x1f1f1f1f1f1f1f1f := rfl
    have second : Repeats 0x05 0x0505050505050505 := rfl
    have mask : Repeats 0x20 0x2020202020202020 := rfl
    have split := or_and_shifted (Nat.lt_trans byte (by decide)) (sum 0x1f (by decide))
      (sum 0x05 (by decide)) (by decide : (0x20 : UInt64).toNat < 256) x
      (x + 0x1f1f1f1f1f1f1f1f) (x + 0x0505050505050505) 0x2020202020202020
    rw [← add_repeated first (fits 0x1f (by decide)), ← add_repeated second (fits 0x05 (by decide)),
      mask] at split
    exact split
  -- With nothing above it, the byte becomes what it becomes below any other word.
  have alone := step 0
  have empty : b ||| ((0 : UInt64) <<< 8) = b := by simp
  have nothing : lowerPacked 0 <<< 8 = 0 := by decide
  rw [empty, nothing, UInt64.or_zero] at alone
  rw [step, alone]

theorem isNameChar_ascii {c : Char} (letter : isNameChar c = true) : 0 < c.toNat ∧ c.toNat < 128 := by
  obtain letter | digit := isNameChar_iff.1 letter
  · obtain upper | lower | rfl := isNameStart_iff.1 letter
    · omega
    · omega
    · decide
  · have bounds := isDigit_iff.1 digit
    omega

theorem lowerPacked_char {c : Char} (letter : isNameChar c = true) :
    lowerPacked c.val.toUInt64 = c.toLower.val.toUInt64 ∧ isNameChar c.toLower = true := by
  have all : ∀ n < 128, isNameChar (Char.ofNat n) = true →
      lowerPacked (Char.ofNat n).val.toUInt64 = (Char.ofNat n).toLower.val.toUInt64 ∧
        isNameChar (Char.ofNat n).toLower = true := by
    decide +kernel
  have here := all c.toNat (isNameChar_ascii letter).2
  rw [Char.ofNat_toNat] at here
  exact here letter

theorem lowerPacked_pack {word : List Char} (name : ∀ c ∈ word, isNameChar c = true) :
    lowerPacked (pack word) = pack (lower word) := by
  induction word with
  | nil => rfl
  | cons c cs ih =>
    rw [List.forall_mem_cons] at name
    have byte : c.val.toUInt64.toNat < 128 := by
      rw [UInt32.toNat_toUInt64]
      exact (isNameChar_ascii name.1).2
    rw [pack, lowerPacked_shifted byte, (lowerPacked_char name.1).1, ih name.2]
    rfl

theorem toNat_pack {word : List Char} (short : word.length ≤ 8)
    (name : ∀ c ∈ word, isNameChar c = true) :
    (pack word).toNat = Nat.ofDigits 256 (word.map Char.toNat) := by
  induction word with
  | nil => rfl
  | cons c cs ih =>
    rw [List.forall_mem_cons] at name
    rw [List.length_cons] at short
    have rest := ih (Nat.le_of_succ_le short) name.2
    have bound : Nat.ofDigits 256 (cs.map Char.toNat) < 256 ^ 7 := by
      refine Nat.lt_of_lt_of_le (Nat.ofDigits_lt_base_pow_length (by decide) ?_)
        (Nat.pow_le_pow_right (by decide) ?_)
      · rintro _ member
        obtain ⟨d, inside, rfl⟩ := List.mem_map.1 member
        exact Nat.lt_trans (isNameChar_ascii (name.2 d inside)).2 (by decide)
      · simpa using Nat.le_of_succ_le_succ short
    have first : c.val.toUInt64.toNat = c.toNat := UInt32.toNat_toUInt64 _
    have byte : c.toNat < 256 := Nat.lt_trans (isNameChar_ascii name.1).2 (by decide)
    have amount : 2 ^ ((8 : UInt64).toNat % 64) = 256 := rfl
    rw [pack, or_shifted (first ▸ byte), UInt64.toNat_add, first, UInt64.toNat_shiftLeft, rest,
      Nat.shiftLeft_eq, amount, List.map_cons, Nat.ofDigits_cons]
    omega

theorem digits_pack {word : List Char} (short : word.length ≤ 8)
    (name : ∀ c ∈ word, isNameChar c = true) :
    Nat.digits 256 (pack word).toNat = word.map Char.toNat := by
  rw [toNat_pack short name]
  refine Nat.digits_ofDigits 256 (by decide) _ ?_ ?_
  · rintro _ member
    obtain ⟨c, inside, rfl⟩ := List.mem_map.1 member
    exact Nat.lt_trans (isNameChar_ascii (name c inside)).2 (by decide)
  · intro some
    obtain ⟨c, inside, last⟩ := List.mem_map.1 (List.getLast_mem some)
    rw [← last]
    exact Nat.ne_of_gt (isNameChar_ascii (name c inside)).1

theorem pack_inj {as bs : List Char} (shortA : as.length ≤ 8) (shortB : bs.length ≤ 8)
    (nameA : ∀ c ∈ as, isNameChar c = true) (nameB : ∀ c ∈ bs, isNameChar c = true) :
    pack as = pack bs ↔ as = bs := by
  refine ⟨fun same => ?_, congrArg pack⟩
  have equal : as.map Char.toNat = bs.map Char.toNat := by
    rw [← digits_pack shortA nameA, same, digits_pack shortB nameB]
  exact List.map_injective_iff.2 (fun _ _ => Char.toNat_inj.1) equal

/-- A name is looked up by its small letters. -/
theorem find?_eq {word : List Char} (name : ∀ c ∈ word, isNameChar c = true) :
    find? word = (spellings.find? fun entry => entry.1.toList == lower word).map Prod.snd := by
  have listed : ∀ entry ∈ spellings, entry.1.toList.length ≤ 8 ∧
      entry.1.toList.all isNameChar = true := by decide
  have small : ∀ c ∈ lower word, isNameChar c = true := by
    rintro _ member
    obtain ⟨c, inside, rfl⟩ := List.mem_map.1 member
    exact (lowerPacked_char (name c inside)).2
  by_cases short : word.length ≤ 8
  · have same : ∀ entry ∈ spellings,
        (pack entry.1.toList == lowerPacked (pack word)) = (entry.1.toList == lower word) := by
      intro entry member
      obtain ⟨fits, letters⟩ := listed entry member
      rw [lowerPacked_pack name, Bool.eq_iff_iff, beq_iff_eq, beq_iff_eq]
      exact pack_inj fits (by simpa using short) (List.all_eq_true.1 letters) small
    rw [find?, if_pos short, List.find?_congr same]
  · have none : spellings.find? (fun entry => entry.1.toList == lower word) = none := by
      rw [List.find?_eq_none]
      intro entry member equal
      have length := congrArg List.length (beq_iff_eq.1 equal)
      rw [length_lower] at length
      exact short (length ▸ (listed entry member).1)
    rw [find?, if_neg short, none]
    rfl

end ClauseSql.Keyword
