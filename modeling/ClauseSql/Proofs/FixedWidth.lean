import ClauseSql.Proofs.NumberLiterals
import ClauseSql.Proofs.Spelling

/-! Numbers of fixed width, as dates and times are made of. A number has one text of a given width, and a
text of fixed width is known by its shape, in which each digit is shown as a zero. -/
namespace ClauseSql

open Numeral

namespace Notation

theorem digit_bounds {c : Char} (digit : c.isDigit = true) : 48 ≤ c.toNat ∧ c.toNat ≤ 57 := by
  simpa [Char.isDigit, UInt32.le_iff_toNat_le] using digit

theorem ofDigits_concat (cs : List Char) (c : Char) :
    ofDigits (cs ++ [c]) = 10 * ofDigits cs + digitValue c := by
  simp [ofDigits]

theorem ofDigits_lt {cs : List Char} (digits : ∀ c ∈ cs, c.isDigit = true) :
    ofDigits cs < 10 ^ cs.length := by
  induction cs using List.reverseRecOn with
  | nil => decide
  | append_singleton cs c ih =>
    rw [List.forall_mem_append, List.forall_mem_singleton] at digits
    have before := ih digits.1
    have last := digit_bounds digits.2
    rw [ofDigits_concat, List.length_append, List.length_singleton, Nat.pow_succ, digitValue]
    omega

theorem ofDigits_inj {cs ds : List Char} (first : ∀ c ∈ cs, c.isDigit = true)
    (second : ∀ d ∈ ds, d.isDigit = true) (wide : cs.length = ds.length)
    (same : ofDigits cs = ofDigits ds) : cs = ds := by
  induction cs using List.reverseRecOn generalizing ds with
  | nil => exact (List.length_eq_zero_iff.1 wide.symm).symm
  | append_singleton cs c ih =>
    obtain rfl | ⟨ds, d, rfl⟩ := List.eq_nil_or_concat' ds
    · simp at wide
    · rw [List.forall_mem_append, List.forall_mem_singleton] at first second
      rw [ofDigits_concat, ofDigits_concat, digitValue, digitValue] at same
      have low := digit_bounds first.2
      have high := digit_bounds second.2
      rw [ih first.1 second.1 (by simpa using wide) (by omega),
        Char.toNat_inj.1 (by omega : c.toNat = d.toNat)]

/-- Exactly so many digits, which denote the number. -/
structure FixedWidth (width n : Nat) (cs : List Char) : Prop where
  length : cs.length = width
  digits : ∀ c ∈ cs, c.isDigit = true
  value : denoted cs = n

namespace FixedWidth

variable {width n : Nat} {cs : List Char}

theorem read (field : FixedWidth width n cs) : ofDigits cs = n := (ofDigits_eq_denoted cs).trans field.value

theorem lt (field : FixedWidth width n cs) : n < 10 ^ width := by
  rw [← field.read, ← field.length]
  exact ofDigits_lt field.digits

theorem padded (wide : 0 < width) (fits : n < 10 ^ width) : FixedWidth width n (padded width n) := by
  have short : (natText n).length ≤ width := (Nat.length_toDigits_le_iff (by decide) wide).2 fits
  refine ⟨?_, ?_, ?_⟩
  · simp only [Notation.padded, zeros, List.length_append, List.length_replicate]
    omega
  · intro c member
    obtain zero | digit := List.mem_append.1 member
    · rw [List.eq_of_mem_replicate zero]
      rfl
    · exact Nat.isDigit_of_mem_toDigits (by decide) (by decide) digit
  · have same : denoted (Notation.padded width n) = Nat.ofDigitChars 10 (Notation.padded width n) 0 := by
      rw [← ofDigits_eq_denoted, Nat.ofDigitChars_eq_foldl]
      rfl
    rw [same, Notation.padded, Nat.ofDigitChars_append, zeros, Nat.ofDigitChars_replicate_zero,
      Nat.mul_zero]
    exact Nat.ofDigitChars_ten_toDigits

theorem eq_padded (field : FixedWidth width n cs) (wide : 0 < width) : cs = Notation.padded width n := by
  have written := FixedWidth.padded wide field.lt
  exact ofDigits_inj field.digits written.digits (field.length.trans written.length.symm)
    (field.read.trans written.read.symm)

end FixedWidth

end Notation

namespace Spelling

open Notation

theorem mask_eq_mark {c p : Char} (mark : p.isDigit = false) : mask Char.isDigit c = p ↔ c = p := by
  rw [mask]
  split
  · next digit =>
    constructor
    · rintro rfl
      cases mark
    · rintro rfl
      rw [digit] at mark
      cases mark
  · rfl

theorem mask_eq_digit {c : Char} : mask Char.isDigit c = '0' ↔ c.isDigit = true := by
  rw [mask]
  split
  · next digit => simp [digit]
  · next other =>
    constructor
    · rintro rfl
      rfl
    · intro digit
      exact absurd digit other

theorem map_mask_digits {width : Nat} {cs : List Char} :
    cs.map (mask Char.isDigit) = List.replicate width '0' ↔
      cs.length = width ∧ ∀ c ∈ cs, c.isDigit = true := by
  simp only [List.eq_replicate_iff, List.length_map, List.forall_mem_map, mask_eq_digit]

theorem field_of_mask {width : Nat} {cs shape : List Char}
    (same : cs.map (mask Char.isDigit) = List.replicate width '0' ++ shape) :
    ∃ n field rest, FixedWidth width n field ∧ cs = field ++ rest ∧ rest.map (mask Char.isDigit) = shape := by
  obtain ⟨field, rest, rfl, first, second⟩ := List.map_eq_append_iff.1 same
  obtain ⟨length, digits⟩ := map_mask_digits.1 first
  exact ⟨_, field, rest, ⟨length, digits, rfl⟩, rfl, second⟩

theorem mark_of_mask {p : Char} {cs shape : List Char} (mark : p.isDigit = false)
    (same : cs.map (mask Char.isDigit) = p :: shape) :
    ∃ rest, cs = p :: rest ∧ rest.map (mask Char.isDigit) = shape := by
  obtain ⟨c, rest, rfl, first, second⟩ := List.map_eq_cons_iff.1 same
  obtain rfl := (mask_eq_mark mark).1 first
  exact ⟨rest, rfl, second⟩

theorem map_mask_field {width n : Nat} {cs : List Char} (field : FixedWidth width n cs) :
    cs.map (mask Char.isDigit) = List.replicate width '0' :=
  map_mask_digits.2 ⟨field.length, field.digits⟩

theorem map_mask_triple (width : Nat) {mark : Char} (plain : mark.isDigit = false) {w : List Char} :
    w.map (mask Char.isDigit) =
        List.replicate width '0' ++ mark :: (List.replicate 2 '0' ++ mark :: List.replicate 2 '0') ↔
      ∃ first second third fs ss ts,
        FixedWidth width first fs ∧ FixedWidth 2 second ss ∧ FixedWidth 2 third ts ∧
        w = fs ++ mark :: (ss ++ mark :: ts) := by
  constructor
  · intro whole
    obtain ⟨first, fs, _, one, rfl, behindFirst⟩ := field_of_mask whole
    obtain ⟨_, rfl, later⟩ := mark_of_mask plain behindFirst
    obtain ⟨second, ss, _, two, rfl, behindSecond⟩ := field_of_mask later
    obtain ⟨_, rfl, last⟩ := mark_of_mask plain behindSecond
    obtain ⟨length, digits⟩ := map_mask_digits.1 last
    exact ⟨first, second, _, fs, ss, _, one, two, ⟨length, digits, rfl⟩, rfl⟩
  · rintro ⟨first, second, third, fs, ss, ts, one, two, three, rfl⟩
    simp only [List.map_append, List.map_cons, map_mask_field one, map_mask_field two, map_mask_field three,
      (mask_eq_mark plain).2]

theorem mem_dayShape {w : List Char} :
    w ∈ shown Char.isDigit dayShape ↔ ∃ year month day ys ms ds,
      FixedWidth 4 year ys ∧ FixedWidth 2 month ms ∧ FixedWidth 2 day ds ∧ w = ys ++ '-' :: (ms ++ '-' :: ds) :=
  map_mask_triple 4 (rfl : '-'.isDigit = false)

end Spelling

end ClauseSql
