import ClauseSql.Proofs.Keywords
import ClauseSql.Proofs.Relexing
import Mathlib.Computability.Language

/-! How tokens are spelled. Each kind of token has a language of texts, and a text is read as one token
of a kind exactly if it belongs to the language of the kind. Dates may be written with the digits of any
script behind the first one; in ASCII they have their usual form. -/
namespace ClauseSql.Spelling

open Text Token Lexing
open scoped Computability

def one (test : Char → Bool) : Language Char := {w | ∃ c, test c = true ∧ w = [c]}

def exactly (s : String) : Language Char := {w | w = s.toList}

def optional (l : Language Char) : Language Char := 1 + l

def several (l : Language Char) : Language Char := l * l∗

theorem mem_exactly {s : String} {w : List Char} : w ∈ exactly s ↔ w = s.toList := Iff.rfl

theorem mem_optional {l : Language Char} {w : List Char} : w ∈ optional l ↔ w = [] ∨ w ∈ l := by
  rw [optional, Language.mem_add, Language.mem_one]

theorem mem_one_mul {test : Char → Bool} {l : Language Char} {w : List Char} :
    w ∈ one test * l ↔ ∃ c cs, w = c :: cs ∧ test c = true ∧ cs ∈ l := by
  rw [Language.mem_mul]
  constructor
  · rintro ⟨_, ⟨c, holds, rfl⟩, cs, member, rfl⟩
    exact ⟨c, cs, rfl, holds, member⟩
  · rintro ⟨c, cs, rfl, holds, member⟩
    exact ⟨[c], ⟨c, holds, rfl⟩, cs, member, rfl⟩

theorem mem_exactly_mul {s : String} {l : Language Char} {w : List Char} :
    w ∈ exactly s * l ↔ ∃ cs, w = s.toList ++ cs ∧ cs ∈ l := by
  rw [Language.mem_mul]
  constructor
  · rintro ⟨_, rfl, cs, member, rfl⟩
    exact ⟨cs, rfl, member⟩
  · rintro ⟨cs, rfl, member⟩
    exact ⟨_, rfl, cs, member, rfl⟩

theorem kstar_eq (l : Language Char) : l∗ = optional (l * l∗) :=
  (Language.one_add_self_mul_kstar_eq_kstar l).symm

theorem mem_kstar {l : Language Char} {w : List Char} : w ∈ l∗ ↔ w = [] ∨ w ∈ l * l∗ := by
  rw [← mem_optional, ← kstar_eq]

theorem mem_kstar_one {test : Char → Bool} {w : List Char} :
    w ∈ (one test)∗ ↔ w.all test = true := by
  induction w with
  | nil => rw [mem_kstar]; simp
  | cons c cs ih => rw [mem_kstar, mem_one_mul]; simp [ih]

theorem mem_several_one {test : Char → Bool} {w : List Char} :
    w ∈ several (one test) ↔ w ≠ [] ∧ w.all test = true := by
  rw [several, mem_one_mul]
  cases w <;> simp [mem_kstar_one]

def sign : Language Char := one fun c => c == '+' || c == '-'

def digits : Language Char := several (one Char.isDigit)

def fraction : Language Char := exactly "." * digits

def exponent : Language Char := one (fun c => c == 'e' || c == 'E') * (optional sign * digits)

def number : Language Char :=
  optional sign * (digits * (optional fraction * optional exponent)) + sign * fraction

theorem mem_sign_mul {l : Language Char} {w : List Char} :
    w ∈ sign * l ↔ ∃ c cs, w = c :: cs ∧ (c = '+' ∨ c = '-') ∧ cs ∈ l := by
  simp [sign, mem_one_mul]

theorem mem_optional_sign_mul {l : Language Char} {w : List Char} :
    w ∈ optional sign * l ↔ w ∈ l ∨ w ∈ sign * l := by
  rw [optional, add_mul, one_mul, Language.mem_add]

theorem mem_digits {w : List Char} : w ∈ digits ↔ Notation.areDigits w = true := by
  rw [digits, mem_several_one]
  cases w <;> simp [Notation.areDigits]

theorem mem_fraction {w : List Char} :
    w ∈ fraction ↔ ∃ ds, w = '.' :: ds ∧ Notation.areDigits ds = true := by
  rw [fraction, mem_exactly_mul]
  simp [mem_digits]

theorem mem_optional_fraction {w : List Char} : w ∈ optional fraction ↔ IsFraction w := by
  rw [mem_optional, mem_fraction]
  rfl

theorem mem_optional_exponent {w : List Char} : w ∈ optional exponent ↔ IsExponent w := by
  rw [mem_optional, exponent, mem_one_mul]
  refine or_congr_right ?_
  constructor
  · rintro ⟨mark, cs, rfl, letter, member⟩
    have marks : mark = 'e' ∨ mark = 'E' := by simpa using letter
    rw [mem_optional_sign_mul, mem_sign_mul, mem_digits] at member
    obtain digits | ⟨c, ds, rfl, signed, digits⟩ := member
    · exact ⟨mark, [], cs, rfl, marks, .inl rfl, digits⟩
    · exact ⟨mark, [c], ds, rfl, marks, by simpa using signed, mem_digits.1 digits⟩
  · rintro ⟨mark, signs, ds, rfl, marks, signed, digits⟩
    refine ⟨mark, signs ++ ds, rfl, by simpa using marks, ?_⟩
    rw [mem_optional_sign_mul, mem_sign_mul, mem_digits]
    obtain rfl | rfl | rfl := signed
    · exact .inl digits
    · exact .inr ⟨'+', ds, rfl, .inl rfl, mem_digits.2 digits⟩
    · exact .inr ⟨'-', ds, rfl, .inr rfl, mem_digits.2 digits⟩

theorem mem_unsigned {w : List Char} :
    w ∈ digits * (optional fraction * optional exponent) ↔
      startsWith Char.isDigit w = true ∧ Numeral.scan w = ⟨w, true⟩ := by
  simp only [Language.mem_mul, mem_digits, mem_optional_fraction, mem_optional_exponent]
  constructor
  · rintro ⟨whole, digits, _, ⟨places, fraction, power, exponent, rfl⟩, rfl⟩
    have all : whole.all Char.isDigit = true := (Bool.and_eq_true_iff.1 digits).2
    have again : Numeral.scan (whole ++ (places ++ (power ++ []))) = ⟨whole ++ (places ++ power), true⟩ :=
      numeral_scan all fraction exponent rfl
    rw [List.append_nil] at again
    refine ⟨?_, again⟩
    cases whole with
    | nil => cases digits
    | cons d ds =>
      have first : startsWith Char.isDigit (d :: ds) = true := startsWith_digit digits
      exact first
  · rintro ⟨digit, scanned⟩
    have formed : (Numeral.scan w).wellFormed = true := by rw [scanned]
    obtain ⟨places, power, fraction, exponent, taken⟩ := numeral_shape formed
    rw [scanned] at taken
    exact ⟨_, digits_areDigits (digits_nonempty digit), _, ⟨_, fraction, _, exponent, rfl⟩, taken.symm⟩

def name : Language Char := one isNameStart * (one isNameChar)∗

def path : Language Char := name * several (exactly "/" * name)

def nameTail : Language Char := (one isNameChar)∗ * (exactly "/" * name)∗

theorem nameTail_eq :
    nameTail = one isNameChar * nameTail + optional (exactly "/" * (one isNameStart * nameTail)) := by
  -- Either the name goes on by a character, or its star ends and the star of the slashes is unfolded.
  calc nameTail
      = optional (one isNameChar * (one isNameChar)∗) * (exactly "/" * name)∗ := by
        rw [← kstar_eq, nameTail]
    _ = one isNameChar * nameTail + (exactly "/" * name)∗ := by
        rw [optional, add_mul, one_mul, mul_assoc, add_comm, nameTail]
    _ = one isNameChar * nameTail + optional (exactly "/" * name * (exactly "/" * name)∗) := by
        rw [← kstar_eq]
    _ = one isNameChar * nameTail + optional (exactly "/" * (one isNameStart * nameTail)) := by
        simp only [name, nameTail, mul_assoc]

theorem cons_mem_nameTail {c : Char} {cs : List Char} :
    c :: cs ∈ nameTail ↔
      isNameChar c = true ∧ cs ∈ nameTail ∨ c = '/' ∧ cs ∈ one isNameStart * nameTail := by
  rw [nameTail_eq, Language.mem_add, mem_one_mul, mem_optional, mem_exactly_mul, ← nameTail_eq]
  simp

theorem mem_start_nameTail {cs : List Char} :
    cs ∈ one isNameStart * nameTail ↔ startsWith isNameStart cs = true ∧ cs ∈ nameTail := by
  rw [mem_one_mul]
  constructor
  · rintro ⟨c, cs, rfl, letter, member⟩
    exact ⟨letter, cons_mem_nameTail.2 (.inl ⟨isNameChar_of_start letter, member⟩)⟩
  · rintro ⟨letter, member⟩
    cases cs with
    | nil => cases letter
    | cons c cs =>
      obtain ⟨-, member⟩ | ⟨rfl, -⟩ := cons_mem_nameTail.1 member
      · exact ⟨c, cs, rfl, letter, member⟩
      · cases letter

theorem nameRest_eq_self {cs : List Char} : nameRest cs = cs ↔ cs ∈ nameTail := by
  induction cs with
  | nil =>
    rw [nameTail_eq, Language.mem_add, mem_optional]
    exact ⟨fun _ => .inr (.inl rfl), fun _ => rfl⟩
  | cons c cs ih =>
    rw [cons_mem_nameTail, mem_start_nameTail, ← ih, nameRest]
    split
    · next goes =>
      simp only [Bool.or_eq_true, Bool.and_eq_true, beq_iff_eq] at goes
      rw [List.cons_inj_right]
      tauto
    · next stops =>
      simp only [Bool.or_eq_true, Bool.and_eq_true, beq_iff_eq] at stops
      refine ⟨fun empty => (List.cons_ne_nil _ _ empty.symm).elim, fun goes => ?_⟩
      tauto

theorem mem_names {w : List Char} :
    w ∈ name * (exactly "/" * name)∗ ↔ ∃ c cs, w = c :: cs ∧ isNameStart c = true ∧ nameRest cs = cs := by
  rw [name, mul_assoc, mem_one_mul]
  simp only [nameRest_eq_self, nameTail, name]

theorem mem_name {w : List Char} :
    w ∈ name ↔ startsWith isNameStart w = true ∧ w.all isNameChar = true := by
  rw [name, mem_one_mul]
  cases w with
  | nil => simp [startsWith]
  | cons c cs => simp +contextual [mem_kstar_one, startsWith, isNameChar_of_start]

theorem slash_mem_of_path {w : List Char} (member : w ∈ path) : '/' ∈ w := by
  rw [path, several, mul_assoc] at member
  obtain ⟨first, -, rest, ⟨_, ⟨⟩, more, -, rfl⟩, rfl⟩ := member
  simp

theorem slash_not_mem_of_name {w : List Char} (member : w ∈ name) : '/' ∉ w := by
  intro slash
  have all := List.all_eq_true.1 (mem_name.1 member).2
  exact absurd (all _ slash) (by decide)

theorem names_cases {w : List Char} :
    (w ∈ name ↔ w ∈ name * (exactly "/" * name)∗ ∧ '/' ∉ w) ∧
      (w ∈ path ↔ w ∈ name * (exactly "/" * name)∗ ∧ '/' ∈ w) := by
  have both : w ∈ name * (exactly "/" * name)∗ ↔ w ∈ name ∨ w ∈ path := by
    rw [kstar_eq, optional, mul_add, mul_one, Language.mem_add, path, several]
  have slash := @slash_mem_of_path w
  have plain := @slash_not_mem_of_name w
  tauto

def quotedTail : Language Char := (one (· != '\'') + exactly "''")∗ * exactly "'"

def quoted : Language Char := exactly "'" * quotedTail

theorem quotedTail_eq :
    quotedTail = one (· != '\'') * quotedTail + exactly "''" * quotedTail + exactly "'" := by
  rw [quotedTail]
  nth_rewrite 1 [kstar_eq]
  rw [optional, add_mul, one_mul, add_comm, mul_assoc, add_mul]

theorem mem_quotedTail {w : List Char} :
    w ∈ quotedTail ↔ (∃ c cs, w = c :: cs ∧ c ≠ '\'' ∧ cs ∈ quotedTail) ∨
      (∃ cs, w = '\'' :: '\'' :: cs ∧ cs ∈ quotedTail) ∨ w = ['\''] := by
  rw [quotedTail_eq, Language.mem_add, Language.mem_add, mem_one_mul, mem_exactly_mul, mem_exactly,
    or_assoc, ← quotedTail_eq]
  simp

theorem quotedRest?_eq_self {cs : List Char} : quotedRest? cs = some (cs, []) ↔ cs ∈ quotedTail := by
  fun_induction quotedRest? cs with
  | case1 => rw [mem_quotedTail]; simp
  | case2 cs ih => rw [mem_quotedTail]; simp [← ih]
  | case3 cs single =>
    rw [mem_quotedTail]
    simpa using fun more pair _ => (single more pair).elim
  | case4 c cs pair single ih =>
    rw [mem_quotedTail]
    have other : c ≠ '\'' := single
    simp [← ih, other]

def mask (digit : Char → Bool) (c : Char) : Char := if digit c then '0' else c

def dayShape : Language Char := exactly "0000-00-00"

def placesShape : Language Char := {w | ∃ n, 1 ≤ n ∧ n ≤ 9 ∧ w = '.' :: List.replicate n '0'}

def secondsShape : Language Char := exactly ":00" * optional placesShape

def zoneShape : Language Char := exactly "Z" + sign * exactly "00:00"

def timeShape : Language Char := exactly "T00:00" * (optional secondsShape * zoneShape)

def shown (digit : Char → Bool) (shapes : Language Char) : Language Char :=
  {w | w.map (mask digit) ∈ shapes}

theorem mem_shown {digit : Char → Bool} {shapes : Language Char} {w : List Char} :
    w ∈ shown digit shapes ↔ w.map (mask digit) ∈ shapes := Iff.rfl

theorem mask_digit {c : Char} (digit : isDecimalDigit c = true) : mask isDecimalDigit c = '0' :=
  if_pos digit

theorem mask_other {c : Char} (other : isDecimalDigit c = false) : mask isDecimalDigit c = c :=
  if_neg (by simp [other])

theorem mask_eq_zero {c : Char} : mask isDecimalDigit c = '0' ↔ isDecimalDigit c = true := by
  refine ⟨fun zero => ?_, mask_digit⟩
  by_contra other
  rw [mask_other (Bool.eq_false_iff.2 other)] at zero
  exact other (zero ▸ by decide)

theorem eq_of_mask_eq {c p : Char} (same : mask isDecimalDigit c = p) (mark : p ≠ '0') : c = p := by
  by_cases digit : isDecimalDigit c = true
  · exact absurd (same.symm.trans (mask_digit digit)) mark
  · rw [← same, mask_other (Bool.eq_false_iff.2 digit)]

theorem shaped?_mask {shape cs taken : List Char}
    (plain : shape.all (fun p => p == '0' || !isDecimalDigit p) = true)
    (read : Dated.shaped? shape cs = some taken) : taken.map (mask isDecimalDigit) = shape := by
  fun_induction Dated.shaped? shape cs generalizing taken with
  | case1 =>
    cases read
    rfl
  | case2 => cases read
  | case3 p ps c cs fits ih =>
    obtain ⟨more, found, rfl⟩ := Option.map_eq_some_iff.mp read
    simp only [List.all_cons, Bool.and_eq_true, Bool.or_eq_true, beq_iff_eq, Bool.not_eq_true'] at plain
    rw [List.map_cons, ih plain.2 found]
    congr 1
    split at fits
    · next zero => rw [mask_digit fits, zero]
    · next zero =>
      obtain rfl := beq_iff_eq.1 fits
      exact mask_other (plain.1.resolve_left zero)
  | case4 => cases read

theorem shaped?_of_mask {shape taken : List Char} (same : taken.map (mask isDecimalDigit) = shape)
    (rest : List Char) : Dated.shaped? shape (taken ++ rest) = some taken := by
  subst same
  induction taken with
  | nil => rfl
  | cons c cs ih =>
    have fits : (if mask isDecimalDigit c = '0' then isDecimalDigit c else c == mask isDecimalDigit c) =
        true := by
      split
      · next zero => exact mask_eq_zero.1 zero
      · next mark => exact beq_iff_eq.2 (eq_of_mask_eq rfl mark)
    rw [List.map_cons, List.cons_append, Dated.shaped?, if_pos fits, ih]
    rfl

theorem fraction_mask (cs : List Char) :
    (Dated.fraction cs).map (mask isDecimalDigit) ∈ optional placesShape := by
  rw [mem_optional]
  obtain empty | ⟨places, taken, some, short, all⟩ := datedFraction_cases cs
  · exact .inl (by rw [empty, List.map_nil])
  · rw [taken]
    refine .inr ⟨_, List.length_pos_iff.2 some, short, congrArg ('.' :: ·) ?_⟩
    rw [List.map_eq_replicate_iff]
    exact fun d member => mask_digit (List.all_eq_true.1 all d member)

theorem fraction_of_mask {places : List Char}
    (member : places.map (mask isDecimalDigit) ∈ optional placesShape) :
    Dated.fraction places = places := by
  obtain empty | ⟨n, some, few, same⟩ := mem_optional.1 member
  · rw [List.map_eq_nil_iff.1 empty]
    rfl
  · obtain ⟨point, ds, rfl, first, zeros⟩ := List.map_eq_cons_iff.1 same
    obtain rfl := eq_of_mask_eq first (by decide)
    have length : ds.length = n := by simpa using congrArg List.length zeros
    have all : ds.takeWhile isDecimalDigit = ds := by
      rw [List.takeWhile_eq_self_iff]
      intro d inside
      have zero : mask isDecimalDigit d ∈ List.replicate n '0' := zeros ▸ List.mem_map_of_mem inside
      exact mask_eq_zero.1 (List.eq_of_mem_replicate zero)
    have nonempty : ds ≠ [] := List.length_pos_iff.1 (length ▸ some)
    rw [Dated.fraction, all, List.take_of_length_le (length ▸ few)]
    exact if_pos ⟨rfl, nonempty⟩

theorem seconds_mask (cs : List Char) :
    (Dated.seconds cs).map (mask isDecimalDigit) ∈ optional secondsShape := by
  unfold Dated.seconds
  split
  · exact mem_optional.2 (.inl rfl)
  · next whole read =>
    rw [List.map_append, shaped?_mask rfl read, mem_optional, secondsShape, mem_exactly_mul]
    exact .inr ⟨_, rfl, fraction_mask _⟩

theorem seconds_of_mask {seconds : List Char}
    (member : seconds.map (mask isDecimalDigit) ∈ optional secondsShape) :
    Dated.seconds seconds = seconds := by
  rw [mem_optional, secondsShape, mem_exactly_mul] at member
  obtain empty | ⟨places, same, member⟩ := member
  · rw [List.map_eq_nil_iff.1 empty]
    rfl
  · obtain ⟨whole, places, rfl, first, rfl⟩ := List.map_eq_append_iff.1 same
    have read : Dated.shaped? [':', '0', '0'] (whole ++ places) = some whole := shaped?_of_mask first _
    simp only [Dated.seconds, read, List.drop_left, fraction_of_mask member]

theorem zone?_mask {cs zone : List Char} (read : Dated.zone? cs = some zone) :
    zone.map (mask isDecimalDigit) ∈ zoneShape := by
  rw [zoneShape, Language.mem_add, mem_sign_mul]
  obtain rfl | ⟨c, cs, offset, mark, rfl, found⟩ := zone?_cases read
  · exact .inl rfl
  · right
    rw [List.map_cons, shaped?_mask rfl found]
    obtain rfl | rfl := mark
    · exact ⟨_, _, rfl, .inl rfl, rfl⟩
    · exact ⟨_, _, rfl, .inr rfl, rfl⟩

theorem zone?_of_mask {zone : List Char} (member : zone.map (mask isDecimalDigit) ∈ zoneShape) :
    Dated.zone? zone = some zone := by
  rw [zoneShape, Language.mem_add, mem_sign_mul, mem_exactly] at member
  obtain zulu | ⟨mark, offset, same, signs, shape⟩ := member
  · obtain ⟨c, _, rfl, first, empty⟩ := List.map_eq_cons_iff.1 zulu
    obtain rfl := eq_of_mask_eq first (by decide)
    rw [List.map_eq_nil_iff.1 empty]
    rfl
  · obtain ⟨c, digits, rfl, first, rfl⟩ := List.map_eq_cons_iff.1 same
    have read : Dated.shaped? ['0', '0', ':', '0', '0'] (digits ++ []) = some digits :=
      shaped?_of_mask shape []
    rw [List.append_nil] at read
    have sign : c = mark := eq_of_mask_eq first (by obtain rfl | rfl := signs <;> decide)
    subst sign
    have other : c ≠ 'Z' := by obtain rfl | rfl := signs <;> decide
    simp [Dated.zone?, other, signs, read]

theorem time?_mask {cs time : List Char} (read : Dated.time? cs = some time) :
    time.map (mask isDecimalDigit) ∈ timeShape := by
  obtain ⟨minutes, zone, whole, last, rfl⟩ := time?_cases read
  rw [timeShape, mem_exactly_mul, List.append_assoc, List.map_append, List.map_append,
    shaped?_mask rfl whole]
  exact ⟨_, rfl, Language.append_mem_mul (seconds_mask _) (zone?_mask last)⟩

theorem time?_of_mask {time : List Char} (member : time.map (mask isDecimalDigit) ∈ timeShape) :
    Dated.time? time = some time := by
  rw [timeShape, mem_exactly_mul] at member
  obtain ⟨_, same, later⟩ := member
  obtain ⟨minutes, _, rfl, first, rfl⟩ := List.map_eq_append_iff.1 same
  obtain ⟨_, second, _, third, same⟩ := Language.mem_mul.1 later
  obtain ⟨seconds, zone, rfl, rfl, rfl⟩ := List.map_eq_append_iff.1 same.symm
  have read : Dated.shaped? ['T', '0', '0', ':', '0', '0'] (minutes ++ (seconds ++ zone)) = some minutes :=
    shaped?_of_mask first _
  have last := zone?_of_mask third
  have mark : startsWith (fun c => c == ':' || c == '.' || isDecimalDigit c) zone = false := by
    obtain rfl | ⟨sign, _, offset, rfl | rfl, rfl, -⟩ := zone?_cases last <;> rfl
  have again : Dated.seconds (seconds ++ zone) = seconds := by
    have whole := seconds_again seconds mark
    rwa [seconds_of_mask second] at whole
  have behind : (minutes ++ (seconds ++ zone)).drop (minutes ++ seconds).length = zone := by
    rw [← List.append_assoc, List.drop_left]
  simp only [Dated.time?, read, Option.bind_eq_bind, Option.bind_some, List.drop_left, again, behind, last]
  simp

theorem date_iff {w : List Char} :
    Dated.literal? w = some (.date, w) ↔ w ∈ shown isDecimalDigit dayShape := by
  constructor
  · intro read
    obtain ⟨day, found, ⟨-, rfl⟩ | ⟨time, -, other, -⟩⟩ := dated_cases read
    · exact shaped?_mask rfl found
    · cases other
  · intro member
    have found : Dated.day? (w ++ []) = some w := shaped?_of_mask member []
    rw [List.append_nil] at found
    simp [Dated.literal?, Dated.longest?, found, Dated.time?, Dated.shaped?, startsWith]

theorem dateTime_iff {w : List Char} :
    Dated.literal? w = some (.dateTime, w) ↔ w ∈ shown isDecimalDigit (dayShape * timeShape) := by
  constructor
  · intro read
    obtain ⟨day, found, ⟨other, -⟩ | ⟨time, later, -, rfl⟩⟩ := dated_cases read
    · cases other
    · have first : day.map (mask isDecimalDigit) ∈ dayShape := shaped?_mask rfl found
      have second : time.map (mask isDecimalDigit) ∈ timeShape := time?_mask later
      rw [mem_shown, List.map_append]
      exact Language.append_mem_mul first second
  · intro member
    obtain ⟨_, first, _, second, same⟩ := Language.mem_mul.1 member
    obtain ⟨day, time, rfl, rfl, rfl⟩ := List.map_eq_append_iff.1 same.symm
    have found : Dated.day? (day ++ time) = some day := shaped?_of_mask first time
    simp [Dated.literal?, Dated.longest?, found, time?_of_mask second, startsWith]

theorem isDecimalDigit_ascii {c : Char} (ascii : c.toNat < 128) : isDecimalDigit c = c.isDigit := by
  have all : ∀ n < 128, isDecimalDigit (Char.ofNat n) = (Char.ofNat n).isDigit := by decide +kernel
  simpa only [Char.ofNat_toNat] using all c.toNat ascii

theorem shown_ascii {w : List Char} (ascii : ∀ c ∈ w, c.toNat < 128) (shapes : Language Char) :
    w ∈ shown isDecimalDigit shapes ↔ w ∈ shown Char.isDigit shapes := by
  have same : w.map (mask isDecimalDigit) = w.map (mask Char.isDigit) := by
    refine List.map_congr_left fun c member => ?_
    rw [mask, mask, isDecimalDigit_ascii (ascii c member)]
  rw [mem_shown, mem_shown, same]

def words : TokenKind → List String
  | .operator op => [op.word]
  | .not => ["not"]
  | .asWord => ["as"]
  | .literal .boolean => ["true", "false"]
  | .literal .null => ["null"]
  | _ => []

/-- The words of the list, in small and capital letters. -/
def anyCase (listed : List String) : Language Char := {w | ∃ s ∈ listed, lower w = s.toList}

theorem words_listed (kind : TokenKind) : ∀ s ∈ words kind, (s, kind) ∈ Keyword.spellings := by
  cases kind with
  | operator op => rcases op with op | op | op <;> cases op <;> decide
  | literal kind => cases kind <;> decide
  | _ => decide

theorem find?_iff {w : List Char} (letters : w.all isNameChar = true) {kind : TokenKind} :
    Keyword.find? w = some kind ↔ w ∈ anyCase (words kind) := by
  have listed : ∀ entry ∈ Keyword.spellings, entry.1 ∈ words entry.2 := by decide
  have distinct : ∀ entry ∈ Keyword.spellings,
      Keyword.spellings.find? (fun other => other.1.toList == entry.1.toList) = some entry := by decide
  rw [Keyword.find?_eq (List.all_eq_true.1 letters), Option.map_eq_some_iff]
  constructor
  · rintro ⟨entry, found, rfl⟩
    have same := List.find?_some found
    rw [beq_iff_eq] at same
    exact ⟨entry.1, listed entry (List.mem_of_find?_eq_some found), same.symm⟩
  · rintro ⟨s, word, same⟩
    exact ⟨(s, kind), same ▸ distinct _ (words_listed kind s word), rfl⟩

theorem toLower_cases (c : Char) : c.isUpper = true ∨ c.toLower = c := by
  by_cases upper : c.isUpper = true
  · exact .inl upper
  · right
    exact dif_neg fun inside => upper (decide_eq_true inside)

theorem name_of_anyCase {kind : TokenKind} {w : List Char} (member : w ∈ anyCase (words kind)) :
    w ∈ name := by
  obtain ⟨s, word, same⟩ := member
  have listed : ∀ entry ∈ Keyword.spellings,
      startsWith isNameStart entry.1.toList = true ∧ entry.1.toList.all isNameChar = true := by decide
  obtain ⟨first, letters⟩ := listed _ (words_listed kind s word)
  rw [← same] at first letters
  rw [mem_name]
  constructor
  · cases w with
    | nil => cases first
    | cons c cs =>
      obtain upper | lower := toLower_cases c
      · exact isNameStart_of_upper upper
      · have letter : isNameStart c.toLower = true := first
        rwa [lower] at letter
  · rw [List.all_eq_true] at letters ⊢
    intro c inside
    obtain upper | lower := toLower_cases c
    · exact isNameChar_of_start (isNameStart_of_upper upper)
    · have letter := letters c.toLower (List.mem_map_of_mem inside)
      rwa [lower] at letter

/-- The texts that are tokens of a kind. -/
def spelling : TokenKind → Language Char
  | .identifier => {w | w ∈ name ∧ ∀ kind, w ∉ anyCase (words kind)}
  | .path => path
  | .literal .string => quoted
  | .literal .number => number
  | .literal .date => shown Char.isDigit dayShape
  | .literal .dateTime => shown Char.isDigit (dayShape * timeShape)
  | .openParen => exactly "("
  | .closeParen => exactly ")"
  | .comma => exactly ","
  -- A function name needs the parenthesis behind it, and the end marker has no text.
  | .functionName => 0
  | .eof => 0
  | kind => anyCase (words kind)

theorem mem_spelling_of_word {kind : TokenKind} {w : List Char} (word : w ∈ anyCase (words kind)) :
    w ∈ spelling kind := by
  obtain ⟨s, member, same⟩ := word
  cases kind with
  | operator op => exact ⟨s, member, same⟩
  | not => exact ⟨s, member, same⟩
  | asWord => exact ⟨s, member, same⟩
  | literal kind =>
    cases kind with
    | boolean => exact ⟨s, member, same⟩
    | null => exact ⟨s, member, same⟩
    | _ => cases member
  | _ => cases member

theorem nameKind_path {w rest : List Char} (slash : '/' ∈ w) : nameKind w rest = .path := by
  simp [nameKind, slash]

theorem nameKind_name {w : List Char} (plain : '/' ∉ w) :
    nameKind w [] = (Keyword.find? w).getD .identifier := by
  unfold nameKind
  rw [if_neg (by simpa using plain)]
  cases Keyword.find? w <;> rfl

theorem mem_spelling_nameKind {w : List Char} (member : w ∈ name * (exactly "/" * name)∗) :
    w ∈ spelling (nameKind w []) := by
  by_cases slash : '/' ∈ w
  · rw [nameKind_path slash]
    exact names_cases.2.2 ⟨member, slash⟩
  · have plain : w ∈ name := names_cases.1.2 ⟨member, slash⟩
    have letters := (mem_name.1 plain).2
    rw [nameKind_name slash]
    cases found : Keyword.find? w with
    | some kind => exact mem_spelling_of_word ((find?_iff letters).1 found)
    | none =>
      refine ⟨plain, fun kind word => ?_⟩
      rw [(find?_iff letters).2 word] at found
      cases found

def AsciiDate (kind : TokenKind) (w : List Char) : Prop :=
  kind = .literal .date ∨ kind = .literal .dateTime → ∀ c ∈ w, c.toNat < 128

theorem scan_eq_self {cs : List Char} (taken : (Numeral.scan cs).taken = cs)
    (formed : (Numeral.scan cs).wellFormed = true) : Numeral.scan cs = ⟨cs, true⟩ := by
  calc Numeral.scan cs
      = ⟨(Numeral.scan cs).taken, (Numeral.scan cs).wellFormed⟩ := rfl
    _ = ⟨cs, true⟩ := by rw [taken, formed]

theorem mem_spelling_of_found {c : Char} {cs tail : List Char} {kind : TokenKind}
    (found : Found c cs kind tail) (whole : tail = cs) (ascii : AsciiDate kind (c :: cs)) :
    c :: cs ∈ spelling kind := by
  cases found with
  | openParen => exact whole ▸ rfl
  | closeParen => exact whole ▸ rfl
  | comma => exact whole ▸ rfl
  | @string _ body rest read =>
    subst whole
    have empty : rest = [] := by simpa using quotedRest?_append read
    subst empty
    exact mem_exactly_mul.2 ⟨_, rfl, quotedRest?_eq_self.1 read⟩
  | signed sign digit formed =>
    have unsigned := mem_unsigned.2 ⟨digit, scan_eq_self whole formed⟩
    exact .inl (mem_optional_sign_mul.2 (.inr (mem_sign_mul.2 ⟨c, cs, rfl, sign, unsigned⟩)))
  | @signedFraction _ cs sign digit =>
    have fraction : '.' :: Numeral.digits cs ∈ fraction :=
      mem_fraction.2 ⟨_, rfl, digits_areDigits (digits_nonempty digit)⟩
    rw [whole] at fraction
    exact .inr (mem_sign_mul.2 ⟨c, _, rfl, sign, fraction⟩)
  | @dated _ _ lexeme kind digit read =>
    have same : lexeme = c :: cs := by rw [← dated_cons read, whole]
    subst same
    obtain rfl | rfl := (dated_isPrefix read).2
    · exact (shown_ascii (ascii (.inl rfl)) _).1 (date_iff.1 read)
    · exact (shown_ascii (ascii (.inr rfl)) _).1 (dateTime_iff.1 read)
  | number digit formed =>
    have taken : (Numeral.scan (c :: cs)).taken = c :: cs := by rw [← numeral_cons digit formed, whole]
    have first : startsWith Char.isDigit (c :: cs) = true := digit
    have unsigned := mem_unsigned.2 ⟨first, scan_eq_self taken formed⟩
    exact .inl (mem_optional_sign_mul.2 (.inl unsigned))
  | name letter =>
    rw [whole, List.drop_length]
    exact mem_spelling_nameKind (mem_names.2 ⟨c, cs, rfl, letter, whole⟩)

theorem found_name {w : List Char} (member : w ∈ name * (exactly "/" * name)∗) :
    ∃ c cs, w = c :: cs ∧ Found c cs (nameKind w []) cs := by
  obtain ⟨c, cs, rfl, letter, whole⟩ := mem_names.1 member
  have found : Found c cs (nameKind (c :: nameRest cs) (cs.drop (nameRest cs).length)) (nameRest cs) :=
    .name letter
  rw [whole, List.drop_length] at found
  exact ⟨c, cs, rfl, found⟩

theorem found_word {kind : TokenKind} {w : List Char} (word : w ∈ anyCase (words kind)) :
    ∃ c cs, w = c :: cs ∧ Found c cs kind cs := by
  have member := name_of_anyCase word
  have same : nameKind w [] = kind := by
    rw [nameKind_name (slash_not_mem_of_name member), (find?_iff (mem_name.1 member).2).2 word]
    rfl
  exact same ▸ found_name (names_cases.1.1 member).1

theorem found_number {w : List Char} (member : w ∈ number) :
    ∃ c cs, w = c :: cs ∧ Found c cs (.literal .number) cs := by
  rw [number, Language.mem_add, mem_optional_sign_mul, mem_sign_mul, mem_sign_mul] at member
  obtain (unsigned | ⟨c, cs, rfl, sign, unsigned⟩) | ⟨c, cs, rfl, sign, fraction⟩ := member
  · obtain ⟨digit, scanned⟩ := mem_unsigned.1 unsigned
    cases w with
    | nil => cases digit
    | cons c cs =>
      have found : Found c cs (.literal .number) (Numeral.scan (c :: cs)).taken.tail :=
        .number digit (by rw [scanned])
      rw [scanned] at found
      exact ⟨c, cs, rfl, found⟩
  · obtain ⟨digit, scanned⟩ := mem_unsigned.1 unsigned
    have found : Found c cs (.literal .number) (Numeral.scan cs).taken :=
      .signed sign digit (by rw [scanned])
    rw [scanned] at found
    exact ⟨c, cs, rfl, found⟩
  · obtain ⟨ds, rfl, digits⟩ := mem_fraction.1 fraction
    have found : Found c ('.' :: ds) (.literal .number) ('.' :: Numeral.digits ds) :=
      .signedFraction sign (startsWith_digit digits)
    have same : Numeral.digits (ds ++ []) = ds := digits_eq digits rfl
    rw [List.append_nil] at same
    rw [same] at found
    exact ⟨c, _, rfl, found⟩

theorem found_dated {w rest : List Char} {kind : LiteralKind}
    (begins : w.map (mask Char.isDigit) = '0' :: rest) (read : Dated.literal? w = some (kind, w)) :
    ∃ c cs, w = c :: cs ∧ Found c cs (.literal kind) cs := by
  obtain ⟨c, cs, rfl, zero, -⟩ := List.map_eq_cons_iff.1 begins
  have digit : c.isDigit = true := by
    by_contra other
    rw [mask, if_neg other] at zero
    exact other (zero ▸ rfl)
  exact ⟨c, cs, rfl, .dated digit read⟩

theorem found_of_mem_spelling {kind : TokenKind} {w : List Char} (member : w ∈ spelling kind)
    (ascii : AsciiDate kind w) : ∃ c cs, w = c :: cs ∧ Found c cs kind cs := by
  cases kind with
  | identifier =>
    obtain ⟨plain, other⟩ := member
    have none : Keyword.find? w = none := by
      rw [Option.eq_none_iff_forall_ne_some]
      intro kind found
      exact other kind ((find?_iff (mem_name.1 plain).2).1 found)
    have same : nameKind w [] = .identifier := by
      rw [nameKind_name (slash_not_mem_of_name plain), none]
      rfl
    exact same ▸ found_name (names_cases.1.1 plain).1
  | path => exact nameKind_path (slash_mem_of_path member) ▸ found_name (names_cases.2.1 member).1
  | functionName => cases member
  | literal kind =>
    cases kind with
    | string =>
      obtain ⟨cs, rfl, tail⟩ := mem_exactly_mul.1 member
      exact ⟨_, _, rfl, .string (quotedRest?_eq_self.2 tail)⟩
    | number => exact found_number member
    | boolean => exact found_word member
    | null => exact found_word member
    | date =>
      have read := date_iff.2 ((shown_ascii (ascii (.inl rfl)) _).2 member)
      exact found_dated member read
    | dateTime =>
      have read := dateTime_iff.2 ((shown_ascii (ascii (.inr rfl)) _).2 member)
      obtain ⟨rest, same, -⟩ := mem_exactly_mul.1 member
      exact found_dated same read
  | operator op => exact found_word member
  | not => exact found_word member
  | asWord => exact found_word member
  | openParen => exact ⟨_, _, member, .openParen []⟩
  | closeParen => exact ⟨_, _, member, .closeParen []⟩
  | comma => exact ⟨_, _, member, .comma []⟩
  | eof => cases member

theorem rescans_alone {c : Char} {cs tail : List Char} {kind : TokenKind} (found : Found c cs kind tail)
    (whole : tail = cs) : Rescans kind (c :: cs) [] := by
  have again := @Found.rescans c cs tail [] kind found
  rw [whole] at again
  cases found with
  | openParen => exact whole ▸ ⟨'(', [], rfl, rfl, fun _ => rfl⟩
  | closeParen => exact whole ▸ ⟨')', [], rfl, rfl, fun _ => rfl⟩
  | comma => exact whole ▸ ⟨',', [], rfl, rfl, fun _ => rfl⟩
  | name letter =>
    have named := rescans_name cs letter (rfl : startsWith _ [] = false)
    rw [whole] at named ⊢
    rwa [List.drop_length]
  | _ => exact again rfl Parts.nil

theorem first_found {position : Nat} {cs : List Char} {t u : Token} {ts : List Token}
    (layout : Layout position cs (t :: u :: ts)) :
    ∃ blanks c tail rest, cs = blanks ++ (t.lexeme ++ rest) ∧ t.lexeme = c :: tail ∧
      Found c (tail ++ rest) t.kind tail := by
  cases layout with
  | token blank visible start lexeme found more => exact ⟨_, _, _, _, rfl, lexeme, found⟩

/-- The source is one token of the kind. -/
def IsToken (source : String) (kind : TokenKind) : Prop :=
  tokenize source = .ok [⟨kind, 0, source.toList⟩, ⟨.eof, byteLength source.toList, []⟩]

theorem isToken_iff_found {source : String} {kind : TokenKind} :
    IsToken source kind ↔ ∃ c cs, source.toList = c :: cs ∧ Found c cs kind cs := by
  constructor
  · intro lexed
    obtain ⟨blanks, c, tail, rest, same, lexeme, found⟩ := first_found (tokenize_layout lexed)
    have length := congrArg List.length same
    simp only [List.length_append] at length
    have empty : rest = [] := List.length_eq_zero_iff.1 (by omega)
    subst empty
    rw [List.append_nil] at found
    exact ⟨c, tail, lexeme, found⟩
  · rintro ⟨c, cs, same, found⟩
    have lexed := (Lexes.token (rescans_alone found rfl) 0).tokenize
    rw [← same, String.ofList_toList] at lexed
    exact lexed

/-- A source is one token of a kind exactly if it is spelled as the kind is. -/
theorem isToken_iff_spelled (source : String) (kind : TokenKind)
    (ascii : AsciiDate kind source.toList) :
    IsToken source kind ↔ source.toList ∈ spelling kind := by
  rw [isToken_iff_found]
  constructor
  · rintro ⟨c, cs, same, found⟩
    rw [same] at ascii ⊢
    exact mem_spelling_of_found found rfl ascii
  · intro member
    exact found_of_mem_spelling member ascii

theorem dateTime_isToken :
    "2024-01-15T10:30:00.25+02:00".toList ∈ spelling (.literal .dateTime) ∧
      IsToken "2024-01-15T10:30:00.25+02:00" (.literal .dateTime) := by
  have ascii : AsciiDate (.literal .dateTime) "2024-01-15T10:30:00.25+02:00".toList := by
    have all : "2024-01-15T10:30:00.25+02:00".toList.all (fun c => decide (c.toNat < 128)) = true := rfl
    exact fun _ c inside => of_decide_eq_true (List.all_eq_true.1 all c inside)
  have places : ".00".toList ∈ placesShape := ⟨2, by decide, by decide, rfl⟩
  have seconds : ":00.00".toList ∈ optional secondsShape :=
    mem_optional.2 (.inr (mem_exactly_mul.2 ⟨_, rfl, mem_optional.2 (.inr places)⟩))
  have zone : "+00:00".toList ∈ zoneShape := .inr (mem_sign_mul.2 ⟨_, _, rfl, .inl rfl, rfl⟩)
  have time : "T00:00:00.00+00:00".toList ∈ timeShape :=
    mem_exactly_mul.2 ⟨_, rfl, Language.append_mem_mul seconds zone⟩
  have shape : "2024-01-15T10:30:00.25+02:00".toList ∈ spelling (.literal .dateTime) :=
    mem_exactly_mul.2 ⟨_, rfl, time⟩
  exact ⟨shape, (isToken_iff_spelled _ _ ascii).2 shape⟩

end ClauseSql.Spelling
