import ClauseSql.Proofs.CalendarDays
import ClauseSql.Proofs.Safety

/-! Dates and moments through their text. A moment is written with fields of fixed width, a fraction and an
offset, so it is read again from the text that is written for it. Seconds that are left out are zero. -/
namespace ClauseSql

open Text Token Notation Typing

namespace Moment

open Spelling

theorem fits_iff_mask {p c : Char} (plain : (p == '0' || !p.isDigit) = true) :
    (if p = '0' then c.isDigit else c == p) = true ↔ mask Char.isDigit c = p := by
  split
  · next zero => rw [zero, mask_eq_digit]
  · next other =>
    have mark : p.isDigit = false := by simpa [other] using plain
    rw [mask_eq_mark mark, beq_iff_eq]

theorem shaped?_eq_some {shape : List Char} (plain : shape.all (fun p => p == '0' || !p.isDigit) = true)
    {cs taken rest : List Char} :
    shaped? shape cs = some (taken, rest) ↔
      cs = taken ++ rest ∧ taken.map (mask Char.isDigit) = shape := by
  induction shape generalizing cs taken with
  | nil =>
    rw [shaped?, Option.some.injEq, Prod.mk.injEq, List.map_eq_nil_iff]
    constructor
    · rintro ⟨rfl, rfl⟩
      exact ⟨rfl, rfl⟩
    · rintro ⟨rfl, rfl⟩
      exact ⟨rfl, rfl⟩
  | cons p ps ih =>
    rw [List.all_cons, Bool.and_eq_true] at plain
    cases cs with
    | nil =>
      simp only [shaped?, reduceCtorEq, false_iff, not_and]
      intro empty same
      rw [(List.append_eq_nil_iff.1 empty.symm).1] at same
      cases same
    | cons c cs =>
      by_cases fits : mask Char.isDigit c = p
      · rw [shaped?, if_pos ((fits_iff_mask plain.1).2 fits), Option.map_eq_some_iff]
        constructor
        · rintro ⟨⟨more, left⟩, read, equal⟩
          cases equal
          obtain ⟨rfl, shaped⟩ := (ih plain.2).1 read
          exact ⟨rfl, by rw [List.map_cons, fits, shaped]⟩
        · rintro ⟨whole, same⟩
          obtain ⟨d, more, rfl, -, shaped⟩ := List.map_eq_cons_iff.1 same
          obtain ⟨rfl, rfl⟩ := List.cons.inj whole
          exact ⟨(more, rest), (ih plain.2).2 ⟨rfl, shaped⟩, rfl⟩
      · rw [shaped?, if_neg (mt (fits_iff_mask plain.1).1 fits)]
        simp only [reduceCtorEq, false_iff, not_and]
        intro whole same
        obtain ⟨d, more, rfl, first, -⟩ := List.map_eq_cons_iff.1 same
        obtain ⟨rfl, -⟩ := List.cons.inj whole
        exact fits first

theorem part_field {width n start : Nat} {field before : List Char} (read : FixedWidth width n field)
    (place : before.length = start) (rest : List Char) :
    part (before ++ (field ++ rest)) start width = n := by
  rw [part, List.drop_left' place, List.take_left' read.length, read.read]

theorem part_pair {width first second : Nat} {fs ss : List Char} (one : FixedWidth width first fs)
    (two : FixedWidth 2 second ss) (mark : Char) (rest : List Char) :
    part (fs ++ mark :: (ss ++ rest)) 0 width = first ∧
      part (fs ++ mark :: (ss ++ rest)) (width + 1) 2 = second := by
  have split : fs ++ mark :: (ss ++ rest) = (fs ++ [mark]) ++ (ss ++ rest) := by simp
  refine ⟨part_field one (rfl : ([] : List Char).length = 0) _, ?_⟩
  rw [split]
  exact part_field two (by rw [List.length_append, one.length]; rfl) rest

theorem part_third {width first second third : Nat} {fs ss ts : List Char} (one : FixedWidth width first fs)
    (two : FixedWidth 2 second ss) (three : FixedWidth 2 third ts) (mark : Char) :
    part (fs ++ mark :: (ss ++ mark :: ts)) (width + 4) 2 = third := by
  have split : fs ++ mark :: (ss ++ mark :: ts) = (fs ++ mark :: (ss ++ [mark])) ++ (ts ++ []) := by simp
  rw [split]
  exact part_field three (by simp [one.length, two.length]) []

theorem fraction?_lt {cs rest : List Char} {n : Nat} (read : fraction? cs = some (n, rest)) :
    n < 1000000000 := by
  cases cs with
  | nil =>
    cases read
    decide
  | cons c cs =>
    simp only [fraction?] at read
    split at read
    · split at read
      · cases read
      · obtain ⟨rfl, -⟩ := Prod.mk.inj (Option.some.inj read)
        have digits : ∀ c ∈ (cs.takeWhile Char.isDigit).take 9, c.isDigit = true := fun c member =>
          List.mem_takeWhile_imp (List.mem_of_mem_take member)
        have few : ((cs.takeWhile Char.isDigit).take 9).length ≤ 9 := List.length_take_le 9 _
        generalize (cs.takeWhile Char.isDigit).take 9 = kept at digits few ⊢
        calc ofDigits kept * pow10 (9 - kept.length)
            < 10 ^ kept.length * pow10 (9 - kept.length) :=
              Nat.mul_lt_mul_of_pos_right (ofDigits_lt digits) (pow10_pos _)
          _ = 10 ^ (kept.length + (9 - kept.length)) := (Nat.pow_add 10 _ _).symm
          _ = 1000000000 := by rw [Nat.add_sub_cancel' few]; rfl
    · cases read
      decide

theorem fraction?_field {width n : Nat} {places : List Char} (field : FixedWidth width n places)
    (wide : 0 < width) (few : width ≤ 9) {c : Char} (ends : c.isDigit = false) (rest : List Char) :
    fraction? ('.' :: (places ++ c :: rest)) = some (n * pow10 (9 - width), c :: rest) := by
  have run : (places ++ c :: rest).takeWhile Char.isDigit = places := by
    rw [List.takeWhile_append_of_pos field.digits]
    simp [ends]
  have kept : places.take 9 = places := List.take_of_length_le (by rw [field.length]; exact few)
  have nonempty : places.isEmpty = false := by
    cases places with
    | nil =>
      have empty := field.length
      simp only [List.length_nil] at empty
      omega
    | cons => rfl
  simp [fraction?, run, kept, nonempty, field.read, field.length]

theorem fraction?_fractionText {n : Nat} (small : n < 1000000000) {c : Char} (point : c ≠ '.')
    (ends : c.isDigit = false) (rest : List Char) :
    fraction? (fractionText n ++ c :: rest) = some (n, c :: rest) := by
  have places {width value : Nat} (wide : 0 < width) (few : width ≤ 9) (fits : value < 10 ^ width)
      (same : value * pow10 (9 - width) = n) :
      fraction? ('.' :: padded width value ++ c :: rest) = some (n, c :: rest) := by
    rw [List.cons_append, fraction?_field (.padded wide fits) wide few ends, same]
  rw [fractionText]
  split
  · next zero => simp [fraction?, point, zero]
  split
  · refine places (by decide) (by decide) (by omega) ?_
    show n / 1000000 * 1000000 = n
    omega
  split
  · refine places (by decide) (by decide) (by omega) ?_
    show n / 1000 * 1000 = n
    omega
  · refine places (by decide) (by decide) (by omega) ?_
    show n * 1 = n
    omega

theorem offset?_lt {cs rest : List Char} {o : Int} (read : offset? cs = some (o, rest)) :
    o.natAbs < 1440 := by
  cases cs with
  | nil => cases read
  | cons c cs =>
    rw [offset?] at read
    split at read
    · cases read
      decide
    · split at read
      · simp only [Option.bind_eq_bind, Option.bind_eq_some_iff] at read
        obtain ⟨⟨digits, left⟩, -, checked⟩ := read
        dsimp only at checked
        split at checked
        · next bounds =>
          obtain ⟨rfl, -⟩ := Prod.mk.inj (Option.some.inj checked)
          split <;> omega
        · cases checked
      · cases read

theorem offset?_fields {hour minute : Nat} {hs ns : List Char} (hours : FixedWidth 2 hour hs)
    (minutes : FixedWidth 2 minute ns) (early : hour < 24) (low : minute < 60) {c : Char}
    (sign : c = '+' ∨ c = '-') :
    offset? (c :: (hs ++ ':' :: ns)) =
      some (if c = '+' then ((hour * 60 + minute : Nat) : Int)
        else -((hour * 60 + minute : Nat) : Int), []) := by
  have read : shaped? ['0', '0', ':', '0', '0'] (hs ++ ':' :: ns) = some (hs ++ ':' :: ns, []) := by
    rw [shaped?_eq_some rfl, List.append_nil, List.map_append, List.map_cons, map_mask_field hours,
      map_mask_field minutes]
    exact ⟨rfl, rfl⟩
  have parts := part_pair hours minutes ':' []
  rw [List.append_nil] at parts
  obtain rfl | rfl := sign
  · simp [offset?, read, parts, early, low]
  · simp [offset?, read, parts, early, low]

theorem offset?_offsetText {o : Int} (small : o.natAbs < 1440) : offset? (offsetText o) = some (o, []) := by
  have hours : FixedWidth 2 (o.natAbs / 60) (padded 2 (o.natAbs / 60)) := .padded (by decide) (by omega)
  have minutes : FixedWidth 2 (o.natAbs % 60) (padded 2 (o.natAbs % 60)) := .padded (by decide) (by omega)
  have sign : (if o < 0 then '-' else '+') = '+' ∨ (if o < 0 then '-' else '+') = '-' := by
    split
    · exact .inr rfl
    · exact .inl rfl
  rw [offsetText, List.cons_append, offset?_fields hours minutes (by omega) (by omega) sign]
  have total : o.natAbs / 60 * 60 + o.natAbs % 60 = o.natAbs := Nat.div_add_mod' _ _
  rw [total]
  by_cases negative : o < 0
  · simp only [negative, if_true, if_neg (by decide : '-' ≠ '+')]
    congr 2
    omega
  · simp only [negative, if_false, if_true]
    congr 2
    omega

/-- The text writes the moment: fields of fixed width with marks between them, a fraction, and an
offset. -/
inductive Written : List Char → Moment → Prop
  | intro {year month day hour minute second nanosecond : Nat} {offset : Int}
      {ys ms ds hs ns ss later zone : List Char} {divider : Char} :
      FixedWidth 4 year ys → FixedWidth 2 month ms → FixedWidth 2 day ds → Gregorian.IsDay year month day →
      isDivider divider = true → FixedWidth 2 hour hs → hour < 24 → FixedWidth 2 minute ns → minute < 60 →
      FixedWidth 2 second ss → second ≤ 60 → fraction? later = some (nanosecond, zone) →
      offset? zone = some (offset, []) →
      Written (ys ++ '-' :: (ms ++ '-' :: (ds ++ divider :: (hs ++ ':' :: (ns ++ ':' :: (ss ++ later))))))
        ⟨⟨year, month, day⟩, hour, minute, second, nanosecond, offset⟩

theorem ofComplete?_of_written {cs : List Char} {m : Moment} (written : Written cs m) :
    ofComplete? cs = some m := by
  cases written with
  | @intro year month day hour minute second nanosecond offset ys ms ds hs ns ss later zone divider
      first middle last isDay divides hours early minutes low seconds few fraction zoned =>
    have dayRead : shaped? ['0', '0', '0', '0', '-', '0', '0', '-', '0', '0']
        ((ys ++ '-' :: (ms ++ '-' :: ds)) ++ divider :: (hs ++ ':' :: (ns ++ ':' :: (ss ++ later)))) =
        some (ys ++ '-' :: (ms ++ '-' :: ds), divider :: (hs ++ ':' :: (ns ++ ':' :: (ss ++ later)))) :=
      (shaped?_eq_some rfl).2 ⟨rfl, mem_dayShape.2 ⟨_, _, _, _, _, _, first, middle, last, rfl⟩⟩
    have timeRead : shaped? ['0', '0', ':', '0', '0', ':', '0', '0']
        ((hs ++ ':' :: (ns ++ ':' :: ss)) ++ later) = some (hs ++ ':' :: (ns ++ ':' :: ss), later) :=
      (shaped?_eq_some rfl).2
        ⟨rfl, (map_mask_triple 2 rfl).2 ⟨_, _, _, _, _, _, hours, minutes, seconds, rfl⟩⟩
    have dated := (Gregorian.isDay_iff first.lt).1 isDay
    have whole := part_pair first middle '-' ('-' :: ds)
    have clock := part_pair hours minutes ':' (':' :: ss)
    simp only [List.append_assoc, List.cons_append] at dayRead timeRead
    simp [ofComplete?, dayRead, timeRead, fraction, zoned, divides, whole, clock, dated, early, low, few,
      part_third first middle last '-', part_third hours minutes seconds ':']

theorem written_of_ofComplete? {cs : List Char} {m : Moment} (read : ofComplete? cs = some m) :
    Written cs m := by
  rw [ofComplete?, Option.bind_eq_bind, Option.bind_eq_some_iff] at read
  obtain ⟨⟨day, behindDay⟩, dayRead, read⟩ := read
  obtain ⟨rfl, dayShape⟩ := (shaped?_eq_some rfl).1 dayRead
  obtain ⟨year, month, ofMonth, ys, ms, ds, first, middle, last, rfl⟩ := mem_dayShape.1 dayShape
  cases behindDay with
  | nil => cases read
  | cons divider behindDivider =>
    simp only [Option.bind_eq_bind, Option.bind_some, Option.bind_eq_some_iff] at read
    obtain ⟨⟨time, behindTime⟩, timeRead, ⟨nanosecond, behindFraction⟩, fraction, ⟨offset, left⟩, zoned,
      checked⟩ := read
    obtain ⟨rfl, timeShape⟩ := (shaped?_eq_some rfl).1 timeRead
    obtain ⟨hour, minute, second, hs, ns, ss, hours, minutes, seconds, rfl⟩ :=
      (map_mask_triple 2 (rfl : ':'.isDigit = false)).1 timeShape
    have whole := part_pair first middle '-' ('-' :: ds)
    have clock := part_pair hours minutes ':' (':' :: ss)
    simp only [whole, clock, part_third first middle last '-', part_third hours minutes seconds ':',
      Bool.and_eq_true, decide_eq_true_eq, List.isEmpty_iff] at checked
    split at checked
    · next bounds =>
      obtain ⟨⟨⟨⟨⟨divides, rfl⟩, dated⟩, early⟩, low⟩, few⟩ := bounds
      cases checked
      have isDay := (Gregorian.isDay_iff first.lt).2 dated
      have written := Written.intro first middle last isDay divides hours early minutes low seconds few
        fraction zoned
      simpa using written
    · cases checked

theorem Written.text {cs : List Char} {m : Moment} (written : Written cs m) : Written m.text m := by
  cases written with
  | @intro year month day hour minute second nanosecond offset _ _ _ _ _ _ later zone divider
      first middle last isDay _ hours early minutes low seconds few fraction zoned =>
    have sign : ∃ c rest, offsetText offset = c :: rest ∧ c ≠ '.' ∧ c.isDigit = false := by
      refine ⟨_, _, rfl, ?_, ?_⟩ <;> split <;> decide
    obtain ⟨c, rest, same, point, ends⟩ := sign
    have places := fraction?_fractionText (fraction?_lt fraction) point ends rest
    have away := offset?_offsetText (offset?_lt zoned)
    rw [← same] at places
    have again := Written.intro first middle last isDay (by decide : isDivider 'T' = true) hours early minutes
      low seconds few places away
    simpa [Moment.text, localText, Date.text_fields first middle last, hours.eq_padded,
      minutes.eq_padded, seconds.eq_padded] using again

def upToMinutes : Language Char :=
  shown Char.isDigit dayShape * (one isDivider * shown Char.isDigit (exactly "00:00"))

theorem mem_upToMinutes {w : List Char} :
    w ∈ upToMinutes ↔ ∃ year month day hour minute ys ms ds hs ns divider, FixedWidth 4 year ys ∧
      FixedWidth 2 month ms ∧ FixedWidth 2 day ds ∧ isDivider divider = true ∧
      FixedWidth 2 hour hs ∧ FixedWidth 2 minute ns ∧
      w = ys ++ '-' :: (ms ++ '-' :: (ds ++ divider :: (hs ++ ':' :: ns))) := by
  rw [upToMinutes, Language.mem_mul]
  constructor
  · rintro ⟨_, dayShape, _, later, rfl⟩
    obtain ⟨divider, clock, rfl, divides, shaped⟩ := mem_one_mul.1 later
    obtain ⟨year, month, day, ys, ms, ds, first, middle, last, rfl⟩ :=
      mem_dayShape.1 dayShape
    have whole : clock.map (mask Char.isDigit) = List.replicate 2 '0' ++ ':' :: List.replicate 2 '0' := shaped
    obtain ⟨hour, hs, _, hours, rfl, behindHour⟩ := field_of_mask whole
    obtain ⟨ns, rfl, minutes⟩ := mark_of_mask rfl behindHour
    obtain ⟨length, digits⟩ := map_mask_digits.1 minutes
    exact ⟨year, month, day, hour, _, ys, ms, ds, hs, ns, divider, first, middle, last, divides, hours,
      ⟨length, digits, rfl⟩, by simp⟩
  · rintro ⟨year, month, day, hour, minute, ys, ms, ds, hs, ns, divider, first, middle, last, divides, hours,
      minutes, rfl⟩
    refine ⟨ys ++ '-' :: (ms ++ '-' :: ds), ?_, divider :: (hs ++ ':' :: ns), ?_, by simp⟩
    · exact mem_dayShape.2 ⟨_, _, _, _, _, _, first, middle, last, rfl⟩
    · refine mem_one_mul.2 ⟨_, _, rfl, divides, ?_⟩
      rw [mem_shown, List.map_append, List.map_cons, map_mask_field hours, map_mask_field minutes]
      rfl

theorem byteLength_field {width n : Nat} {cs : List Char} (field : FixedWidth width n cs) :
    byteLength cs = width := by
  have all : ∀ ds : List Char, (∀ d ∈ ds, d.isDigit = true) → byteLength ds = ds.length := by
    intro ds digits
    induction ds with
    | nil => rfl
    | cons d ds ih =>
      rw [List.forall_mem_cons] at digits
      have single : d.utf8Size = 1 := Char.utf8Size_eq_one_iff.2 (by
        have bounds := digit_bounds digits.1
        have same : d.toNat = d.val.toNat := rfl
        rw [UInt32.le_iff_toNat_le]
        show d.val.toNat ≤ 127
        omega)
      rw [byteLength_cons, single, ih digits.2, List.length_cons, Nat.add_comm]
  rw [all cs field.digits, field.length]

theorem length_upToMinutes {w : List Char} (shaped : w ∈ upToMinutes) :
    w.length = minutesEnd ∧ byteLength w = minutesEnd := by
  obtain ⟨year, month, day, hour, minute, ys, ms, ds, hs, ns, divider, first, middle, last, divides, hours,
    minutes, rfl⟩ := mem_upToMinutes.1 shaped
  have single : divider.utf8Size = 1 := by
    simp only [isDivider, Bool.or_eq_true, beq_iff_eq] at divides
    obtain (rfl | rfl) | rfl := divides <;> rfl
  have dash : '-'.utf8Size = 1 := rfl
  have colon : ':'.utf8Size = 1 := rfl
  constructor
  · simp [first.length, middle.length, last.length, hours.length, minutes.length, minutesEnd]
  · simp [byteLength_field first, byteLength_field middle, byteLength_field last, byteLength_field hours,
      byteLength_field minutes, minutesEnd, single, dash, colon]

theorem Written.seconds {cs : List Char} {m : Moment} (written : Written cs m) :
    ∃ head ss c rest, head ∈ upToMinutes ∧ cs = head ++ ':' :: (ss ++ c :: rest) ∧ ss.length = 2 := by
  cases written with
  | @intro year month day hour minute second nanosecond offset ys ms ds hs ns ss later zone divider
      first middle last isDay divides hours early minutes low seconds few fraction zoned =>
    have more : later ≠ [] := by
      rintro rfl
      cases fraction
      cases zoned
    obtain ⟨c, rest, rfl⟩ := List.exists_cons_of_ne_nil more
    refine ⟨ys ++ '-' :: (ms ++ '-' :: (ds ++ divider :: (hs ++ ':' :: ns))), ss, c, rest, ?_, by simp,
      seconds.length⟩
    exact mem_upToMinutes.2
      ⟨_, _, _, _, _, _, _, _, _, _, _, first, middle, last, divides, hours, minutes, rfl⟩

theorem eq_of_append_upToMinutes {head other rest more : List Char} (shaped : head ∈ upToMinutes)
    (wide : byteLength other = minutesEnd) (same : head ++ rest = other ++ more) :
    head = other ∧ rest = more := by
  have first := takeBytes?_append head rest
  have second := takeBytes?_append other more
  rw [(length_upToMinutes shaped).2, same, ← wide, second] at first
  obtain rfl := Option.some.inj first
  exact ⟨rfl, List.append_cancel_left same⟩

theorem read?_seconds {head rest : List Char} (shaped : head ∈ upToMinutes) :
    read? (head ++ ':' :: rest) = ofComplete? (head ++ ':' :: rest) := by
  have filled : withSeconds? (head ++ ':' :: rest) = none := by
    rw [Option.eq_none_iff_forall_ne_some]
    intro filled done
    obtain ⟨other, c, more, same, wide, colon, -⟩ := withSeconds?_eq_some.1 done
    exact colon (List.cons.inj (eq_of_append_upToMinutes shaped wide same).2).1.symm
  rw [read?, filled]
  cases ofComplete? (head ++ ':' :: rest) <;> rfl

theorem ofComplete?_without_seconds {head rest : List Char} (shaped : head ∈ upToMinutes)
    (apart : rest.head? ≠ some ':') : ofComplete? (head ++ rest) = none := by
  rw [Option.eq_none_iff_forall_ne_some]
  intro m read
  obtain ⟨other, ss, c, more, minutes, same, -⟩ := (written_of_ofComplete? read).seconds
  obtain ⟨-, rfl⟩ := eq_of_append_upToMinutes shaped (length_upToMinutes minutes).2 same
  exact apart rfl

theorem read?_without_seconds {head rest : List Char} (shaped : head ∈ upToMinutes)
    (apart : rest.head? ≠ some ':') :
    read? (head ++ rest) = read? (head ++ (":00".toList ++ rest)) := by
  have behind : ":00".toList ++ rest = ':' :: '0' :: '0' :: rest := rfl
  rw [behind, read?_seconds shaped, read?, ofComplete?_without_seconds shaped apart]
  cases rest with
  | nil =>
    have filled : withSeconds? (head ++ []) = none := by
      rw [Option.eq_none_iff_forall_ne_some]
      intro filled done
      obtain ⟨other, c, more, same, wide, -, -⟩ := withSeconds?_eq_some.1 done
      cases (eq_of_append_upToMinutes shaped wide same).2
    have unzoned : ofComplete? (head ++ ':' :: ['0', '0']) = none := by
      rw [Option.eq_none_iff_forall_ne_some]
      intro m read
      obtain ⟨other, ss, c, more, minutes, same, two⟩ := (written_of_ofComplete? read).seconds
      have length := congrArg List.length
        (eq_of_append_upToMinutes shaped (length_upToMinutes minutes).2 same).2
      simp only [List.length_cons, List.length_nil, List.length_append, two] at length
      omega
    rw [filled, unzoned]
    rfl
  | cons c rest =>
    have other : c ≠ ':' := by simpa using apart
    rw [withSeconds?_eq_some.2 ⟨head, c, rest, rfl, (length_upToMinutes shaped).2, other, rfl⟩]
    rfl

theorem read?_upToMinutes {text : List Char} {m : Moment} (read : read? text = some m) :
    ∃ head rest, text = head ++ rest ∧ head ∈ upToMinutes := by
  rw [read?] at read
  split at read
  · next moment done =>
    obtain ⟨head, ss, c, rest, shaped, rfl, -⟩ := (written_of_ofComplete? done).seconds
    exact ⟨head, _, rfl, shaped⟩
  · obtain ⟨filled, done, complete⟩ := Option.bind_eq_some_iff.1 read
    obtain ⟨other, c, more, rfl, wide, -, rfl⟩ := withSeconds?_eq_some.1 done
    obtain ⟨head, ss, d, rest, shaped, same, -⟩ := (written_of_ofComplete? complete).seconds
    obtain ⟨rfl, -⟩ := eq_of_append_upToMinutes shaped wide same.symm
    exact ⟨head, _, rfl, shaped⟩

theorem read?_text {text : List Char} {m : Moment} (read : read? text = some m) :
    read? m.text = some m := by
  have written : ∃ cs, Written cs m := by
    rw [read?] at read
    split at read
    · next moment done =>
      cases read
      exact ⟨text, written_of_ofComplete? done⟩
    · obtain ⟨filled, -, complete⟩ := Option.bind_eq_some_iff.1 read
      exact ⟨filled, written_of_ofComplete? complete⟩
  obtain ⟨cs, written⟩ := written
  rw [read?, ofComplete?_of_written written.text]

end Moment

/-- An ASCII date of a source gets a value exactly if it names a day, and the value is written as it
stands. A moment is read again from what is written for it. A text that is read as a moment begins with a
date and a time up to its minutes, and where no seconds follow, they may be added as zero. -/
theorem calendar_literals_round_trip :
    (∀ source ts, tokenize source = .ok ts → ∀ t ∈ ts, t.kind = .literal .date →
      (∀ c ∈ t.lexeme, c.toNat < 128) → ∀ entity,
      ((∃ result, operand entity (.literal .date (slice? source.toList t.start t.stop)) = .ok result) ↔
        Gregorian.NamesDay t.lexeme) ∧
      ∀ result, operand entity (.literal .date (slice? source.toList t.start t.stop)) = .ok result →
        ∃ date, result = (.literal (.date date), .date) ∧ (Value.date date).display = t.text) ∧
    (∀ text m, Moment.read? text = some m →
      Moment.read? (Value.moment m).display.toList = some m ∧
      ∃ head rest, text = head ++ rest ∧ head ∈ Moment.upToMinutes) ∧
    ∀ head rest, head ∈ Moment.upToMinutes → rest.head? ≠ some ':' →
      Moment.read? (head ++ rest) = Moment.read? (head ++ (":00".toList ++ rest)) := by
  refine ⟨fun source ts lexed t member date ascii entity => ?_, fun text m read => ⟨?_, ?_⟩, ?_⟩
  · rw [Lexing.tokenize_slice lexed t member]
    have shaped := Lexing.tokenize_shaped lexed member date ascii
    refine ⟨⟨?_, fun named => ?_⟩, fun result typed => ?_⟩
    · rintro ⟨result, typed⟩
      obtain ⟨date, read, -⟩ := operand_date.1 typed
      exact (Date.read_of_shaped shaped read).1
    · obtain ⟨date, read⟩ := Date.read_of_namesDay named
      exact ⟨_, operand_date.2 ⟨date, read, rfl⟩⟩
    · obtain ⟨date, read, rfl⟩ := operand_date.1 typed
      refine ⟨date, rfl, ?_⟩
      rw [Value.display, (Date.read_of_shaped shaped read).2, Token.text]
  · rw [Value.display, String.toList_ofList]
    exact Moment.read?_text read
  · exact Moment.read?_upToMinutes read
  · exact fun head rest shaped apart => Moment.read?_without_seconds shaped apart

theorem calendar_literals_round_trip_leap :
    let source := "ReleaseDate lt 2024-02-29"
    let late : Moment := ⟨⟨2016, 12, 31⟩, 23, 59, 60, 250000000, -210⟩
    Gregorian.NamesDay "2024-02-29".toList ∧
    (∀ entity, ∃ date, operand entity (.literal .date (slice? source.toList 15 25)) =
      .ok (.literal (.date date), .date) ∧ (Value.date date).display = "2024-02-29") ∧
    Moment.read? "2016-12-31 23:59:60.25-03:30".toList = some late ∧
    Moment.read? "2016-12-31T23:59:60.250-03:30".toList = some late ∧
    Moment.read? "2024-01-15T10:30Z".toList = Moment.read? "2024-01-15T10:30:00Z".toList := by
  intro source late
  let t : Token := ⟨.literal .date, 15, "2024-02-29".toList⟩
  have lexed : tokenize source =
      .ok [⟨.identifier, 0, "ReleaseDate".toList⟩, ⟨.operator (.comparison .lt), 12, "lt".toList⟩, t,
        ⟨.eof, 25, []⟩] := by decide +kernel
  have named : Gregorian.NamesDay t.lexeme :=
    ⟨2024, 2, 29, padded 4 2024, padded 2 2, padded 2 29, .padded (by decide) (by decide),
      .padded (by decide) (by decide), .padded (by decide) (by decide), by decide +kernel, by decide,
      by decide, 29, by decide, by decide⟩
  have head : "2024-01-15T10:30".toList ∈ Moment.upToMinutes :=
    Moment.mem_upToMinutes.2 ⟨2024, 1, 15, 10, 30, padded 4 2024, padded 2 1, padded 2 15, padded 2 10,
      padded 2 30, 'T', .padded (by decide) (by decide), .padded (by decide) (by decide),
      .padded (by decide) (by decide), rfl, .padded (by decide) (by decide),
      .padded (by decide) (by decide), by decide +kernel⟩
  have ascii : t.lexeme.all (fun c => decide (c.toNat < 128)) = true := rfl
  have read : Moment.read? "2016-12-31 23:59:60.25-03:30".toList = some late := by decide +kernel
  have written : (Value.moment late).display = "2016-12-31T23:59:60.250-03:30" := by decide +kernel
  obtain ⟨days, moments, seconds⟩ := calendar_literals_round_trip
  refine ⟨named, fun entity => ?_, read, ?_, seconds _ ['Z'] head (by decide)⟩
  · obtain ⟨value, shown⟩ := days source _ lexed t (by simp) rfl
      (fun c inside => of_decide_eq_true (List.all_eq_true.1 ascii c inside)) entity
    obtain ⟨result, typed⟩ := value.2 named
    obtain ⟨date, rfl, same⟩ := shown result typed
    exact ⟨date, typed, same⟩
  · rw [← written]
    exact (moments _ late read).1

end ClauseSql
