import ClauseSql.Number.Binary64
import Mathlib.Algebra.Order.Field.Power
import Mathlib.Algebra.Order.Floor.Semifield
import Mathlib.Data.Rat.Floor
import Mathlib.Tactic.Linarith

/-! The range of doubles. A ratio is rounded to infinity if it is at least half way from the greatest
double to the next power of two, and whether a number literal is that large can be read off its
digits. -/
namespace ClauseSql

namespace Binary64

/-- The least magnitude that is rounded to infinity. The greatest double is `2 ^ 970` below it. -/
def limit : ℚ := 2 ^ 1024 - 2 ^ 970

theorem div_le_roundDiv (num den : Nat) : num / den ≤ roundDiv num den := by
  simp only [roundDiv]
  split <;> omega

theorem roundDiv_le (num den : Nat) : roundDiv num den ≤ num / den + 1 := by
  simp only [roundDiv]
  split <;> omega

theorem roundDiv_lt_iff {num den n : Nat} (positive : 0 < den) (even : n % 2 = 0) :
    roundDiv num den < n ↔ 2 * num + den < 2 * n * den := by
  have split := Nat.div_add_mod num den
  have rest := Nat.mod_lt num positive
  simp only [roundDiv]
  generalize num / den = low at split ⊢
  generalize num % den = r at split rest ⊢
  subst split
  rw [Nat.mul_assoc 2 n, Nat.mul_comm n]
  rcases Nat.lt_trichotomy (low + 1) n with below | rfl | above
  · have far : den * (low + 2) ≤ den * n := Nat.mul_le_mul_left den below
    rw [Nat.mul_add] at far
    exact iff_of_true (by split <;> omega) (by omega)
  · have odd : low % 2 ≠ 0 := by omega
    simp only [odd, and_false, or_false, Nat.mul_add]
    split <;> omega
  · have near : den * n ≤ den * low := Nat.mul_le_mul_left den (by omega)
    exact iff_of_false (by split <;> omega) (by omega)

theorem cast_pow2 (n : Nat) : (pow2 n : ℚ) = 2 ^ n := Nat.cast_pow 2 n

theorem pow2_toNat_div (g : Int) : (pow2 g.toNat : ℚ) / pow2 (-g).toNat = 2 ^ g := by
  obtain ⟨n, rfl | rfl⟩ := g.eq_nat_or_neg
  · simp [cast_pow2]
  · simp [cast_pow2]

theorem lt_zpow_iff {num den : Nat} (positive : 0 < den) (g : Int) :
    num * pow2 (-g).toNat < den * pow2 g.toNat ↔ (num : ℚ) / den < 2 ^ g := by
  have below : (0 : ℚ) < pow2 (-g).toNat := by exact_mod_cast pow2_pos _
  have whole : (0 : ℚ) < den := by exact_mod_cast positive
  rw [← pow2_toNat_div, div_lt_div_iff₀ whole below, mul_comm (pow2 g.toNat : ℚ)]
  norm_cast

theorem log2_bounds {n : Nat} (positive : 0 < n) :
    (2 : ℚ) ^ (n.log2 : Int) ≤ n ∧ (n : ℚ) < 2 ^ ((n.log2 : Int) + 1) := by
  have low : 2 ^ n.log2 ≤ n := Nat.log2_self_le positive.ne'
  have high : n < 2 ^ (n.log2 + 1) := Nat.lt_log2_self
  exact ⟨by exact_mod_cast low, by exact_mod_cast high⟩

theorem logRatio_bounds {num den : Nat} (first : 0 < num) (second : 0 < den) :
    (2 : ℚ) ^ logRatio num den ≤ num / den ∧ (num : ℚ) / den < 2 ^ (logRatio num den + 1) := by
  have two : (2 : ℚ) ≠ 0 := by norm_num
  have whole : (0 : ℚ) < den := by exact_mod_cast second
  obtain ⟨lowNum, highNum⟩ := log2_bounds first
  obtain ⟨lowDen, highDen⟩ := log2_bounds second
  have low : (2 : ℚ) ^ ((num.log2 : Int) - den.log2 - 1) ≤ num / den := by
    rw [sub_sub, zpow_sub₀ two]
    exact div_le_div₀ (Nat.cast_nonneg num) lowNum whole highDen.le
  have high : (num : ℚ) / den < 2 ^ ((num.log2 : Int) - den.log2 + 1) := by
    rw [sub_add_eq_add_sub, zpow_sub₀ two]
    exact div_lt_div₀ highNum lowDen (by positivity) (by positivity)
  simp only [logRatio]
  split
  · next less => exact ⟨low, by simpa using (lt_zpow_iff second _).1 less⟩
  · next more => exact ⟨not_lt.1 (mt (lt_zpow_iff second _).2 more), high⟩

theorem isFinite_ofMagnitude {word : Nat} (negative : Bool) (least : word ≤ infinityBits) :
    (ofMagnitude negative word).isFinite = true ↔ word < infinityBits := by
  have kept : (ofMagnitude negative word).magnitude = word := by
    simp only [infinityBits] at least
    simp only [magnitude, ofMagnitude, Nat.toUInt64, UInt64.toNat_ofNat', signBit]
    cases negative
    · simp
      omega
    · simp
      omega
  rw [isFinite, kept, decide_eq_true_iff]

theorem limit_eq : limit = (2 ^ 54 - 1) * 2 ^ 970 := by
  rw [limit, sub_mul, one_mul, ← pow_add]

theorem two_pow_lt_limit {n : Nat} (low : n ≤ 970) : (2 : ℚ) ^ n < limit :=
  calc (2 : ℚ) ^ n ≤ 2 ^ 970 := pow_le_pow_right₀ (by norm_num) low
    _ < (2 ^ 54 - 1) * 2 ^ 970 := lt_mul_of_one_lt_left (by positivity) (by norm_num)
    _ = limit := limit_eq.symm

theorem scaled_ratio (num den e : Nat) :
    ((num * pow2 (1074 - e) : Nat) : ℚ) / (den * pow2 (e - 1074) : Nat) =
      num / den * 2 ^ (1074 - (e : Int)) := by
  have up : (1074 - (e : Int)).toNat = 1074 - e := by omega
  have down : (-(1074 - (e : Int))).toNat = e - 1074 := by omega
  rw [← pow2_toNat_div, up, down, Nat.cast_mul, Nat.cast_mul, mul_div_mul_comm]

theorem scaled_div_lt {num den : Nat} {L : Int} (high : (num : ℚ) / den < 2 ^ (L + 1)) :
    num * pow2 (1074 - (L + 1022).toNat) / (den * pow2 ((L + 1022).toNat - 1074)) < 2 ^ 53 := by
  have two : (2 : ℚ) ≠ 0 := by norm_num
  rw [← @Nat.floor_div_eq_div ℚ, Nat.floor_lt (div_nonneg (Nat.cast_nonneg _) (Nat.cast_nonneg _)),
    scaled_ratio]
  calc (num : ℚ) / den * 2 ^ (1074 - ((L + 1022).toNat : Int))
      < 2 ^ (L + 1) * 2 ^ (1074 - ((L + 1022).toNat : Int)) := by gcongr
    _ = 2 ^ (L + 1 + (1074 - ((L + 1022).toNat : Int))) := (zpow_add₀ two _ _).symm
    _ ≤ 2 ^ (53 : Int) := zpow_le_zpow_right₀ (by norm_num) (by omega)
    _ = (2 ^ 53 : Nat) := by norm_num

theorem le_scaled_div {num den : Nat} {L : Int} (low : (2 : ℚ) ^ L ≤ num / den) (normal : -1022 ≤ L) :
    2 ^ 52 ≤ num * pow2 (1074 - (L + 1022).toNat) / (den * pow2 ((L + 1022).toNat - 1074)) := by
  have two : (2 : ℚ) ≠ 0 := by norm_num
  rw [← @Nat.floor_div_eq_div ℚ, Nat.le_floor_iff (div_nonneg (Nat.cast_nonneg _) (Nat.cast_nonneg _)),
    scaled_ratio]
  calc ((2 ^ 52 : Nat) : ℚ) = 2 ^ (52 : Int) := by norm_num
    _ = 2 ^ (L + (1074 - ((L + 1022).toNat : Int))) := by congr 1; omega
    _ = 2 ^ L * 2 ^ (1074 - ((L + 1022).toNat : Int)) := zpow_add₀ two _ _
    _ ≤ num / den * 2 ^ (1074 - ((L + 1022).toNat : Int)) := by gcongr

theorem roundDiv_lt_iff_lt_limit {num den : Nat} (positive : 0 < den) :
    roundDiv (num * pow2 (1074 - 2045)) (den * pow2 (2045 - 1074)) < 2 ^ 53 ↔ (num : ℚ) / den < limit := by
  have whole : (0 : ℚ) < den := by exact_mod_cast positive
  have one : pow2 (1074 - 2045) = 1 := rfl
  have unit : pow2 (2045 - 1074) = pow2 970 * 2 := pow2_succ 970
  rw [roundDiv_lt_iff (Nat.mul_pos positive (pow2_pos _)) (by norm_num), limit_eq, div_lt_iff₀ whole,
    ← @Nat.cast_lt ℚ, one, unit, ← cast_pow2 970]
  generalize pow2 970 = p
  push_cast
  constructor <;> intro less <;> linarith

/-- A ratio is rounded to a finite number exactly if it is below the limit. -/
theorem isFinite_ofRatio {num den : Nat} (negative : Bool) (positive : 0 < den) :
    (ofRatio negative num den).isFinite = true ↔ (num : ℚ) / den < limit := by
  by_cases zero : num = 0
  · rw [ofRatio, if_pos zero, isFinite_ofMagnitude negative (by decide), zero, Nat.cast_zero, zero_div]
    exact iff_of_true (by decide) (lt_trans one_pos (two_pow_lt_limit (Nat.zero_le 970)))
  obtain ⟨low, high⟩ := logRatio_bounds (Nat.pos_of_ne_zero zero) positive
  rw [ofRatio, if_neg zero]
  simp only
  rw [isFinite_ofMagnitude negative (min_le_right _ _), min_lt_iff, lt_self_iff_false, or_false]
  generalize logRatio num den = L at low high ⊢
  simp only [infinityBits, hiddenBit]
  rcases lt_trichotomy L 1023 with below | rfl | above
  · have small := scaled_div_lt high
    have rounded := roundDiv_le (num * pow2 (1074 - (L + 1022).toNat))
      (den * pow2 ((L + 1022).toNat - 1074))
    refine iff_of_true (by omega) ?_
    calc (num : ℚ) / den < 2 ^ (L + 1) := high
      _ ≤ 2 ^ (1023 : Int) := zpow_le_zpow_right₀ (by norm_num) (by omega)
      _ = 2 ^ 53 * 2 ^ 970 := by rw [← pow_add]; rfl
      _ ≤ limit := by rw [limit_eq]; gcongr; norm_num
  · rw [← roundDiv_lt_iff_lt_limit positive]
    have exponent : (1023 + 1022 : Int).toNat = 2045 := rfl
    rw [exponent]
    omega
  · have large := le_scaled_div low (by omega)
    have rounded := div_le_roundDiv (num * pow2 (1074 - (L + 1022).toNat))
      (den * pow2 ((L + 1022).toNat - 1074))
    refine iff_of_false (by omega) (not_lt.2 ?_)
    calc limit ≤ 2 ^ (1024 : Int) := by rw [limit]; exact sub_le_self _ (by positivity)
      _ ≤ 2 ^ L := zpow_le_zpow_right₀ (by norm_num) (by omega)
      _ ≤ num / den := low

theorem length_toDigits_bounds {digits : Nat} (positive : 0 < digits) :
    (10 : ℚ) ^ ((Nat.toDigits 10 digits).length - 1 : Int) ≤ digits ∧
      (digits : ℚ) < 10 ^ ((Nat.toDigits 10 digits).length : Int) := by
  obtain ⟨k, length⟩ : ∃ k, (Nat.toDigits 10 digits).length = k + 1 :=
    Nat.exists_eq_add_one.2 Nat.length_toDigits_pos
  have high : digits < 10 ^ (k + 1) := (Nat.length_toDigits_le_iff (by norm_num) k.succ_pos).1 length.le
  have low : 10 ^ k ≤ digits := by
    by_contra less
    cases k with
    | zero => omega
    | succ k =>
      have short := (Nat.length_toDigits_le_iff (by norm_num) k.succ_pos).2 (not_le.1 less)
      omega
  rw [length, Nat.cast_add_one, add_sub_cancel_right]
  exact ⟨by exact_mod_cast low, by exact_mod_cast high⟩

theorem cast_pow10 (n : Nat) : (pow10 n : ℚ) = 10 ^ n := Nat.cast_pow 10 n

theorem pow10_toNat_div (power : Int) : (pow10 power.toNat : ℚ) / pow10 (-power).toNat = 10 ^ power := by
  obtain ⟨n, rfl | rfl⟩ := power.eq_nat_or_neg
  · simp [cast_pow10]
  · simp [cast_pow10]

theorem isFinite_ofDecimal (negative : Bool) (digits : Nat) (power : Int) :
    (ofDecimal negative digits power).isFinite = true ↔ (digits : ℚ) * 10 ^ power < limit := by
  have ten : (10 : ℚ) ≠ 0 := by norm_num
  simp only [ofDecimal]
  split
  · next small =>
    rw [isFinite_ofMagnitude negative (by decide)]
    refine iff_of_true (by decide) (lt_of_le_of_lt ?_ (two_pow_lt_limit (Nat.zero_le 970)))
    rw [pow_zero]
    rcases Nat.eq_zero_or_pos digits with rfl | positive
    · simp
    obtain ⟨-, high⟩ := length_toDigits_bounds positive
    calc (digits : ℚ) * 10 ^ power ≤ 10 ^ ((Nat.toDigits 10 digits).length : Int) * 10 ^ power := by gcongr
      _ = 10 ^ ((Nat.toDigits 10 digits).length + power : Int) := (zpow_add₀ ten _ _).symm
      _ ≤ 1 := zpow_le_one_of_nonpos₀ (by norm_num) (by omega)
  · next some =>
    have positive : 0 < digits := by omega
    obtain ⟨low, high⟩ := length_toDigits_bounds positive
    split
    · next large =>
      rw [infinity, isFinite_ofMagnitude negative le_rfl]
      refine iff_of_false (by decide) (not_lt.2 ?_)
      calc limit ≤ 2 ^ 1024 := by rw [limit]; exact sub_le_self _ (by positivity)
        _ ≤ 10 ^ (310 : Int) := by exact_mod_cast (by decide +kernel : 2 ^ 1024 ≤ 10 ^ 310)
        _ ≤ 10 ^ ((Nat.toDigits 10 digits).length - 1 + power : Int) :=
          zpow_le_zpow_right₀ (by norm_num) (by omega)
        _ = 10 ^ ((Nat.toDigits 10 digits).length - 1 : Int) * 10 ^ power := zpow_add₀ ten _ _
        _ ≤ digits * 10 ^ power := by gcongr
    · rw [isFinite_ofRatio negative (pow10_pos _), Nat.cast_mul, mul_div_assoc, pow10_toNat_div]

end Binary64

end ClauseSql
