import ClauseSql.Proofs.RecasedText
import ClauseSql.Proofs.Separation

/-! Words in another letter case. If the letters of keywords and of function names are written in the
other case, the source still has its tokens: of the same kinds, at the same places. No other token reads
such a letter while it looks ahead, because a word never begins right behind a name or a number. -/
namespace ClauseSql

namespace Lexing

open Text Token

def binds (c : Char) : Bool := isNameChar c || isDecimalDigit c

/-- The texts are the same up to words that may differ. `bound` says that the character in front of both
binds, so that no word begins there. -/
inductive Common : Bool → List Char → List Char → Prop
  | nil {bound : Bool} : Common bound [] []
  | same {bound : Bool} {c : Char} {cs ds : List Char} :
      Common (binds c) cs ds → Common bound (c :: cs) (c :: ds)
  | word {c d : Char} {cs ds : List Char} :
      isNameStart c = true → isNameStart d = true → Common false (c :: cs) (d :: ds)

def bindsLast : Bool → List Char → Bool
  | bound, [] => bound
  | _, c :: cs => bindsLast (binds c) cs

/-- No word begins in the text, nor right behind it. -/
def keepsWordsOut : Bool → List Char → Bool
  | bound, [] => bound
  | bound, c :: cs => (bound || !isNameStart c) && keepsWordsOut (binds c) cs

theorem keepsWordsOut_append {as bs : List Char} {bound : Bool} (first : keepsWordsOut bound as = true)
    (second : keepsWordsOut true bs = true) : keepsWordsOut bound (as ++ bs) = true := by
  induction as generalizing bound with
  | nil =>
    obtain rfl : bound = true := first
    exact second
  | cons a as ih =>
    simp only [keepsWordsOut, Bool.and_eq_true] at first
    simp only [List.cons_append, keepsWordsOut, Bool.and_eq_true]
    exact ⟨first.1, ih first.2⟩

namespace Common

variable {bound : Bool} {cs ds : List Char}

theorem append (front : List Char) (common : Common (bindsLast bound front) cs ds) :
    Common bound (front ++ cs) (front ++ ds) := by
  induction front generalizing bound with
  | nil => exact common
  | cons c front ih => exact .same (ih common)

theorem startsWith (common : Common true cs ds) (test : Char → Bool) :
    startsWith test ds = startsWith test cs := by
  cases common with
  | nil => rfl
  | same => rfl

theorem startsWith_mark (common : Common bound cs ds) {test : Char → Bool}
    (mark : ∀ c, isNameStart c = true → test c = false) :
    Text.startsWith test ds = Text.startsWith test cs := by
  cases common with
  | nil => rfl
  | same => rfl
  | @word c d _ _ left right => exact (mark d right).trans (mark c left).symm

theorem split {taken rest : List Char} (common : Common bound cs (taken ++ rest))
    (out : keepsWordsOut bound taken = true) : ∃ more, cs = taken ++ more ∧ Common true more rest := by
  induction taken generalizing bound cs with
  | nil =>
    obtain rfl : bound = true := out
    exact ⟨cs, rfl, common⟩
  | cons c taken ih =>
    simp only [keepsWordsOut, Bool.and_eq_true, Bool.or_eq_true, Bool.not_eq_true'] at out
    cases common with
    | same common =>
      obtain ⟨more, rfl, behind⟩ := ih common out.2
      exact ⟨more, rfl, behind⟩
    | word _ letter =>
      rw [letter] at out
      simp at out

end Common

theorem isNameStart_of_decimal {c : Char} (digit : isDecimalDigit c = true) :
    isNameStart c = false := by
  rw [Bool.eq_false_iff]
  intro letter
  have zeros : ∀ first ∈ digitZeros, first = 48 ∨ 128 ≤ first := by decide
  have ascii := (Keyword.isNameChar_ascii (isNameChar_of_start letter)).2
  obtain ⟨first, listed, inside⟩ := List.any_eq_true.1 digit
  simp only [Bool.and_eq_true, decide_eq_true_eq] at inside
  obtain rfl | high := zeros first listed
  · have other := isDigit_of_start letter
    have code : c.val.toNat = c.toNat := rfl
    simp only [Char.isDigit, ge_iff_le, Bool.and_eq_false_iff, decide_eq_false_iff_not,
      UInt32.le_iff_toNat_le, code] at other
    have low : '0'.val.toNat = 48 := rfl
    have high : '9'.val.toNat = 57 := rfl
    omega
  · omega

theorem shaped?_keepsWordsOut {shape cs taken : List Char} (read : Dated.shaped? shape cs = some taken)
    (bound : Bool) : keepsWordsOut bound taken = keepsWordsOut bound shape := by
  fun_induction Dated.shaped? shape cs generalizing taken bound with
  | case1 =>
    cases read
    rfl
  | case2 => cases read
  | case3 p ps c cs fits ih =>
    obtain ⟨more, found, rfl⟩ := Option.map_eq_some_iff.mp read
    have alike : isNameStart c = isNameStart p ∧ binds c = binds p := by
      split at fits
      · next zero =>
        subst zero
        have start : isNameStart '0' = false := rfl
        have bind : binds '0' = true := rfl
        rw [isNameStart_of_decimal fits, start, bind]
        simp [binds, fits]
      · rw [beq_iff_eq.1 fits]
        exact ⟨rfl, rfl⟩
    rw [keepsWordsOut, keepsWordsOut, alike.1, alike.2, ih found]
  | case4 => cases read

theorem digits_keepWordsOut {ds : List Char} (digits : ds.all isDecimalDigit = true) (filled : ds ≠ [])
    (bound : Bool) : keepsWordsOut bound ds = true := by
  induction ds generalizing bound with
  | nil => exact absurd rfl filled
  | cons d ds ih =>
    simp only [List.all_cons, Bool.and_eq_true] at digits
    have bind : binds d = true := by simp [binds, digits.1]
    simp only [keepsWordsOut, isNameStart_of_decimal digits.1, bind, Bool.not_false, Bool.or_true,
      Bool.true_and]
    cases ds with
    | nil => rfl
    | cons e ds => exact ih digits.2 (by simp) true

theorem seconds_keepWordsOut (cs : List Char) : keepsWordsOut true (Dated.seconds cs) = true := by
  unfold Dated.seconds
  split
  · rfl
  · next whole read =>
    refine keepsWordsOut_append ?_ ?_
    · rw [shaped?_keepsWordsOut read]
      decide
    · obtain empty | ⟨places, point, filled, -, digits⟩ := datedFraction_cases (cs.drop whole.length)
      · rw [empty]
        rfl
      · rw [point]
        exact digits_keepWordsOut digits filled _

theorem zone?_keepsWordsOut {cs zone : List Char} (read : Dated.zone? cs = some zone) :
    keepsWordsOut true zone = true := by
  obtain rfl | ⟨sign, _, offset, mark, rfl, found⟩ := zone?_cases read
  · rfl
  · rw [keepsWordsOut, shaped?_keepsWordsOut found]
    obtain rfl | rfl := mark <;> decide

theorem dated_keepsWordsOut {cs lexeme : List Char} {kind : LiteralKind}
    (read : Dated.literal? cs = some (kind, lexeme)) (bound : Bool) :
    keepsWordsOut bound lexeme = true := by
  have first {day : List Char} (found : Dated.day? cs = some day) : keepsWordsOut bound day = true := by
    rw [shaped?_keepsWordsOut found]
    revert bound
    decide
  obtain ⟨day, found, ⟨-, rfl⟩ | ⟨time, later, -, rfl⟩⟩ := dated_cases read
  · exact first found
  · obtain ⟨minutes, zone, whole, last, rfl⟩ := time?_cases later
    have second : keepsWordsOut true minutes = true := by
      rw [shaped?_keepsWordsOut whole]
      decide
    refine keepsWordsOut_append (first found) (keepsWordsOut_append ?_ (zone?_keepsWordsOut last))
    exact keepsWordsOut_append second (seconds_keepWordsOut _)

theorem dated_ends {cs lexeme : List Char} {kind : LiteralKind}
    (read : Dated.literal? cs = some (kind, lexeme)) :
    startsWith Dated.cannotFollow (cs.drop lexeme.length) = false := by
  rw [Dated.literal?, Option.filter_eq_some_iff] at read
  simpa using read.2

theorem dated_common {bound : Bool} {cs ds lexeme : List Char} {kind : LiteralKind}
    (common : Common bound cs ds) (read : Dated.literal? ds = some (kind, lexeme)) :
    Dated.literal? cs = some (kind, lexeme) := by
  obtain ⟨rest, rfl⟩ := (dated_isPrefix read).1
  obtain ⟨more, rfl, behind⟩ := common.split (dated_keepsWordsOut read bound)
  have follows := dated_ends read
  rw [List.drop_left] at follows
  exact dated_again read (behind.startsWith _ ▸ follows)

theorem numeral_ends {cs : List Char} (formed : (Numeral.scan cs).wellFormed = true) :
    startsWith continuesNumber (cs.drop (Numeral.scan cs).taken.length) = false := by
  have step (s : Numeral.Scan) (formed : (s.andThen cs Numeral.ending).wellFormed = true) :
      startsWith continuesNumber (cs.drop (s.andThen cs Numeral.ending).taken.length) = false := by
    unfold Numeral.Scan.andThen at formed ⊢
    split
    · next before =>
      rw [if_pos before] at formed
      simpa [Numeral.ending] using formed
    · next before =>
      rw [if_neg before] at formed
      exact absurd formed before
  exact step _ formed

theorem signedFraction_ends {start : Nat} {c : Char} {cs : List Char} {found : TokenKind × List Char}
    (sign : c = '+' ∨ c = '-') (digit : startsWith Char.isDigit cs = true)
    (scanned : scan start c ('.' :: cs) = .ok found) :
    startsWith continuesNumber (cs.drop (Numeral.digits cs).length) = false := by
  rw [scan_sign sign] at scanned
  obtain ⟨lexeme, read, -⟩ := Outcome.map_eq_ok.1 scanned
  have point : Char.isDigit '.' = false := by decide
  simp only [scanSigned, point, digit, scanFraction] at read
  cases behind : cs.drop (Numeral.digits cs).length with
  | nil => rfl
  | cons d rest =>
    rw [behind] at read
    rw [startsWith, Bool.eq_false_iff]
    intro goes
    simp [goes] at read

theorem quotedRest?_ends {cs body rest : List Char} (read : quotedRest? cs = some (body, rest)) :
    startsWith (· == '\'') rest = false ∧ ∀ bound, bindsLast bound body = false := by
  fun_induction quotedRest? cs generalizing body rest with
  | case1 => cases read
  | case2 cs ih =>
    obtain ⟨⟨inner, more⟩, found, equal⟩ := Option.map_eq_some_iff.mp read
    cases equal
    exact ⟨(ih found).1, fun _ => (ih found).2 _⟩
  | case3 cs single =>
    cases read
    refine ⟨?_, fun _ => rfl⟩
    cases cs with
    | nil => rfl
    | cons c cs =>
      rw [startsWith, beq_eq_false_iff_ne]
      rintro rfl
      exact single cs rfl
  | case4 c cs pair single ih =>
    obtain ⟨⟨inner, more⟩, found, equal⟩ := Option.map_eq_some_iff.mp read
    cases equal
    exact ⟨(ih found).1, fun _ => (ih found).2 _⟩

theorem nameRest_ends (cs : List Char) :
    startsWith isNameChar (cs.drop (nameRest cs).length) = false := by
  induction cs with
  | nil => rfl
  | cons c cs ih =>
    simp only [nameRest]
    split
    · exact ih
    · next other =>
      simp only [Bool.or_eq_true, not_or, Bool.not_eq_true] at other
      exact other.1

theorem scan_ends {start : Nat} {c : Char} {cs tail : List Char} {kind : TokenKind}
    (scanned : scan start c cs = .ok (kind, tail)) (bind : bindsLast false (c :: tail) = true) :
    startsWith isNameChar (cs.drop tail.length) = false := by
  have number {cs : List Char} (ends : startsWith continuesNumber cs = false) :
      startsWith isNameChar cs = false :=
    startsWith_mono ends fun c letter => by simp [continuesNumber, letter]
  cases scan_found scanned with
  | openParen => cases bind
  | closeParen => cases bind
  | comma => cases bind
  | string quoted =>
    rw [bindsLast, (quotedRest?_ends quoted).2] at bind
    cases bind
  | signed sign digit formed => exact number (numeral_ends formed)
  | signedFraction sign digit => exact number (signedFraction_ends sign digit scanned)
  | dated digit read =>
    have ends := dated_ends read
    rw [← dated_cons read] at ends
    exact startsWith_mono ends fun c letter => by simp [Dated.cannotFollow, letter]
  | number digit formed =>
    have ends := numeral_ends formed
    rw [← numeral_cons digit formed] at ends
    exact number ends
  | name letter => exact nameRest_ends cs

def Caseless (test : Char → Bool) : Prop := ∀ c, test c.toLower = test c

theorem caseless_of_ascii {test : Char → Bool}
    (ascii : ∀ n < 128, test (Char.ofNat n).toLower = test (Char.ofNat n)) : Caseless test := by
  intro c
  obtain upper | same := Spelling.toLower_cases c
  · have letter := isNameChar_of_start (isNameStart_of_upper upper)
    have here := ascii c.toNat (Keyword.isNameChar_ascii letter).2
    rwa [Char.ofNat_toNat] at here
  · rw [same]

section Lowered

variable {test : Char → Bool} (caseless : Caseless test)
include caseless

theorem Caseless.eq {c d : Char} (same : d.toLower = c.toLower) : test d = test c := by
  rw [← caseless d, same, caseless c]

theorem Caseless.startsWith {cs ds : List Char} (same : lower ds = lower cs) :
    startsWith test ds = startsWith test cs := by
  cases cs with
  | nil =>
    obtain rfl := List.map_eq_nil_iff.1 same
    rfl
  | cons c cs =>
    obtain ⟨d, ds, rfl, first, -⟩ := List.map_eq_cons_iff.1 same
    exact caseless.eq first

end Lowered

theorem isNameChar_caseless : Caseless isNameChar := caseless_of_ascii (by decide)

theorem isNameStart_caseless : Caseless isNameStart := caseless_of_ascii (by decide)

theorem slash_caseless : Caseless (· == '/') := caseless_of_ascii (by decide)

theorem nameRest_lower {cs ds : List Char} (whole : nameRest cs = cs) (same : lower ds = lower cs) :
    nameRest ds = ds := by
  induction cs generalizing ds with
  | nil =>
    obtain rfl := List.map_eq_nil_iff.1 same
    rfl
  | cons c cs ih =>
    obtain ⟨d, ds, rfl, first, rest⟩ := List.map_eq_cons_iff.1 same
    rw [nameRest] at whole ⊢
    rw [isNameChar_caseless.eq first, slash_caseless.eq first, isNameStart_caseless.startsWith rest]
    split at whole
    · next goes =>
      rw [if_pos goes, ih (List.cons.inj whole).2 rest]
    · cases whole

theorem contains_slash_lower {cs ds : List Char} (same : lower ds = lower cs) :
    ds.contains '/' = cs.contains '/' := by
  induction cs generalizing ds with
  | nil =>
    obtain rfl := List.map_eq_nil_iff.1 same
    rfl
  | cons c cs ih =>
    obtain ⟨d, ds, rfl, first, rest⟩ := List.map_eq_cons_iff.1 same
    have here : (d == '/') = (c == '/') := slash_caseless.eq first
    rw [List.contains_cons, List.contains_cons, ih rest, BEq.comm, here, BEq.comm]

theorem letters_of_nameRest {cs : List Char} (whole : nameRest cs = cs)
    (plain : cs.contains '/' = false) : ∀ c ∈ cs, isNameChar c = true := by
  induction cs with
  | nil => exact List.forall_mem_nil _
  | cons c cs ih =>
    simp only [List.contains_cons, Bool.or_eq_false_iff] at plain
    rw [nameRest] at whole
    split at whole
    · next goes =>
      refine List.forall_mem_cons.2 ⟨?_, ih (List.cons.inj whole).2 plain.2⟩
      have other : (c == '/') = false := BEq.comm.trans plain.1
      simpa [other] using goes
    · cases whole

theorem nameKind_lower {c d : Char} {cs ds : List Char} (letter : isNameStart c = true)
    (whole : nameRest cs = cs) (same : lower (d :: ds) = lower (c :: cs)) (rest : List Char) :
    nameKind (d :: ds) rest = nameKind (c :: cs) rest := by
  unfold nameKind
  rw [contains_slash_lower same]
  split
  · rfl
  · next plain =>
    rw [Bool.not_eq_true] at plain
    have first : ∀ x ∈ c :: cs, isNameChar x = true := by
      simp only [List.contains_cons, Bool.or_eq_false_iff] at plain
      exact List.forall_mem_cons.2 ⟨isNameChar_of_start letter, letters_of_nameRest whole plain.2⟩
    have second : ∀ x ∈ d :: ds, isNameChar x = true := by
      intro x member
      have small : x.toLower ∈ lower (c :: cs) := same ▸ List.mem_map_of_mem member
      obtain ⟨y, inside, equal⟩ := List.mem_map.1 small
      rw [← isNameChar_caseless.eq equal]
      exact first y inside
    rw [Keyword.find?_eq first, Keyword.find?_eq second, same]

theorem rescans_recased {c d : Char} {cs ds rest : List Char} (letter : isNameStart c = true)
    (whole : nameRest cs = cs) (same : lower (d :: ds) = lower (c :: cs))
    (apart : startsWith (fun c => isNameChar c || c == '/') rest = false) :
    Rescans (nameKind (c :: cs) rest) (d :: ds) rest := by
  have first : d.toLower = c.toLower := (List.cons.inj same).1
  have found := rescans_name ds ((isNameStart_caseless.eq first).trans letter) apart
  rw [nameRest_lower whole (List.cons.inj same).2] at found
  rw [← nameKind_lower letter whole same]
  exact found

theorem undated_of_scan {start : Nat} {c : Char} {cs tail : List Char} (digit : c.isDigit = true)
    (scanned : scan start c cs = .ok (.literal .number, tail)) : Dated.literal? (c :: cs) = none := by
  cases read : Dated.literal? (c :: cs) with
  | none => rfl
  | some found =>
    obtain ⟨kind, lexeme⟩ := found
    simp only [scan_digit digit, scanDigit, read] at scanned
    cases scanned
    obtain wrong | wrong := (dated_isPrefix read).2 <;> cases wrong

theorem Found.isNameStart {c : Char} {cs tail : List Char} {kind : TokenKind}
    (found : Found c cs kind tail) (caseless : kind.isCaseless = true) : isNameStart c = true := by
  cases found with
  | name letter => exact letter
  | dated _ read => obtain rfl | rfl := (dated_isPrefix read).2 <;> cases caseless
  | _ => cases caseless

/-- The texts are the same up to words, in every place where the first may stand: if it begins with a
word, not behind a binding character. -/
def Reworded (cs ds : List Char) : Prop :=
  ∀ bound, (bound = true → startsWith isNameStart cs = false) → Common bound cs ds

theorem Reworded.refl (cs : List Char) : Reworded cs cs := by
  intro bound _
  have same : Common bound (cs ++ []) (cs ++ []) := .append cs .nil
  rwa [List.append_nil] at same

theorem Reworded.startsWith {cs ds : List Char} (reworded : Reworded cs ds) {ends : Char → Bool}
    (stops : startsWith ends cs = false) (names : ∀ c, isNameStart c = true → ends c = true)
    (test : Char → Bool) : Text.startsWith test ds = Text.startsWith test cs :=
  (reworded true fun _ => startsWith_mono stops names).startsWith test

theorem Reworded.behind {start : Nat} {c : Char} {cs tail rest : List Char} {kind : TokenKind}
    (scanned : scan start c cs = .ok (kind, tail)) (reworded : Reworded (cs.drop tail.length) rest)
    (bound : Bool) : Common bound (c :: cs) (c :: tail ++ rest) := by
  have split := List.prefix_iff_eq_append.1 (scan_found scanned).tail_isPrefix
  have bind := reworded _ fun bind =>
    startsWith_mono (scan_ends scanned bind) fun _ => isNameChar_of_start
  have whole : Common bound (c :: tail ++ cs.drop tail.length) (c :: tail ++ rest) := .append _ bind
  rwa [List.cons_append, split] at whole

theorem undated_reworded {start : Nat} {c : Char} {cs tail rest : List Char} (digit : c.isDigit = true)
    (scanned : scan start c cs = .ok (.literal .number, tail))
    (reworded : Reworded (cs.drop tail.length) rest) : Dated.literal? (c :: tail ++ rest) = none := by
  rw [Option.eq_none_iff_forall_ne_some]
  rintro ⟨kind, date⟩ read
  have before := dated_common (reworded.behind scanned false) read
  cases (undated_of_scan digit scanned).symm.trans before

theorem rescans_name_reworded {c : Char} {cs lexeme rest : List Char} (letter : isNameStart c = true)
    (reworded : Reworded (cs.drop (nameRest cs).length) rest)
    (slash : startsWith (· == '/') (cs.drop (nameRest cs).length) = false)
    (same : lower lexeme = lower (c :: nameRest cs)) :
    Rescans (nameKind (c :: nameRest cs) (cs.drop (nameRest cs).length)) lexeme rest := by
  have ends := nameRest_ends cs
  have look := reworded.startsWith ends fun _ => isNameChar_of_start
  have apart : startsWith (fun c => isNameChar c || c == '/') rest = false := by
    rw [look]
    cases behind : cs.drop (nameRest cs).length with
    | nil => rfl
    | cons d ds =>
      rw [behind] at ends slash
      exact Bool.or_eq_false_iff.2 ⟨ends, slash⟩
  have whole : nameRest (nameRest cs) = nameRest cs := by
    have again : nameRest (nameRest cs ++ []) = nameRest cs := nameRest_again cs rfl
    rwa [List.append_nil] at again
  have kind : nameKind (c :: nameRest cs) (cs.drop (nameRest cs).length) =
      nameKind (c :: nameRest cs) rest := by
    rw [nameKind, nameKind, look]
  obtain ⟨d, ds, rfl, -, -⟩ := List.map_eq_cons_iff.1 same
  rw [kind]
  exact rescans_recased letter whole same apart

theorem rescans_reworded {start : Nat} {c : Char} {cs tail lexeme rest : List Char} {kind : TokenKind}
    (scanned : scan start c cs = .ok (kind, tail)) (reworded : Reworded (cs.drop tail.length) rest)
    (slash : startsWith (· == '/') (cs.drop tail.length) = false)
    (same : lower lexeme = lower (c :: tail)) (fixed : kind.isCaseless = false → lexeme = c :: tail) :
    Rescans kind lexeme rest := by
  have number (c : Char) (letter : isNameStart c = true) : continuesNumber c = true := by
    simp [continuesNumber, isNameChar_of_start letter]
  cases scan_found scanned with
  | openParen =>
    rw [fixed rfl]
    exact ⟨_, _, rfl, rfl, fun _ => rfl⟩
  | closeParen =>
    rw [fixed rfl]
    exact ⟨_, _, rfl, rfl, fun _ => rfl⟩
  | comma =>
    rw [fixed rfl]
    exact ⟨_, _, rfl, rfl, fun _ => rfl⟩
  | string quoted =>
    rw [fixed rfl]
    have behind := reworded false (by simp)
    rw [quotedRest?_append quoted, List.drop_left] at behind
    have mark (c : Char) (letter : isNameStart c = true) : (c == '\'') = false := by
      rw [beq_eq_false_iff_ne]
      rintro rfl
      cases letter
    exact rescans_string quoted ((behind.startsWith_mark mark).trans (quotedRest?_ends quoted).1)
  | signed sign digit formed =>
    rw [fixed rfl]
    have ends := numeral_ends formed
    exact rescans_signed sign digit formed ((reworded.startsWith ends number _).trans ends)
  | signedFraction sign digit =>
    rw [fixed rfl]
    have ends := signedFraction_ends sign digit scanned
    exact rescans_signedFraction sign digit ((reworded.startsWith ends number _).trans ends)
  | dated digit read =>
    have ends := dated_ends read
    rw [← dated_cons read] at ends
    have date (c : Char) (letter : isNameStart c = true) : Dated.cannotFollow c = true := by
      simp [Dated.cannotFollow, isNameChar_of_start letter]
    rw [fixed (by obtain rfl | rfl := (dated_isPrefix read).2 <;> rfl)]
    exact rescans_dated digit read ((reworded.startsWith ends date _).trans ends)
  | @number c cs digit formed =>
    rw [fixed rfl]
    have ends := numeral_ends formed
    have undated := undated_reworded digit scanned reworded
    rw [numeral_cons digit formed] at undated
    rw [← numeral_cons digit formed] at ends
    exact rescans_number digit formed undated ((reworded.startsWith ends number _).trans ends)
  | name letter => exact rescans_name_reworded letter reworded slash same

theorem common_token {start : Nat} {c : Char} {cs tail lexeme rest : List Char} {kind : TokenKind}
    (scanned : scan start c cs = .ok (kind, tail)) (reworded : Reworded (cs.drop tail.length) rest)
    (same : lower lexeme = lower (c :: tail)) (fixed : kind.isCaseless = false → lexeme = c :: tail)
    {bound : Bool} (loose : bound = true → isNameStart c = false) :
    Common bound (c :: cs) (lexeme ++ rest) := by
  cases caseless : kind.isCaseless with
  | false =>
    rw [fixed caseless]
    exact reworded.behind scanned bound
  | true =>
    have letter := (scan_found scanned).isNameStart caseless
    obtain ⟨d, ds, rfl, first, -⟩ := List.map_eq_cons_iff.1 same
    cases bound with
    | false => exact .word letter ((isNameStart_caseless.eq first).trans letter)
    | true => cases letter.symm.trans (loose rfl)

theorem tokensFrom_slash {position : Nat} {cs : List Char} {ts : List Token}
    (lexed : tokensFrom position cs = .ok ts) : startsWith (· == '/') cs = false := by
  cases cs with
  | nil => rfl
  | cons c cs =>
    rw [startsWith, beq_eq_false_iff_ne]
    rintro rfl
    rw [tokensFrom_eq] at lexed
    cases lexed

theorem bindsLast_blanks {blanks : List Char} (blank : ∀ c ∈ blanks, isBlank c = true) {bound : Bool}
    (bind : bindsLast bound blanks = true) : blanks = [] ∧ bound = true := by
  have loose (c : Char) (blank : isBlank c = true) : binds c = false := by
    simp only [isBlank, Bool.or_eq_true, beq_iff_eq] at blank
    obtain (((rfl | rfl) | rfl) | rfl) | rfl := blank <;> rfl
  induction blanks generalizing bound with
  | nil => exact ⟨rfl, bind⟩
  | cons c blanks ih =>
    rw [List.forall_mem_cons] at blank
    rw [bindsLast, loose c blank.1] at bind
    cases (ih blank.2 bind).2

end Lexing

structure Token.SameButCase (t u : Token) : Prop where
  kind : t.kind = u.kind
  start : t.start = u.start
  letters : Text.lower u.lexeme = Text.lower t.lexeme
  lexeme : t.kind.isCaseless = false → u.lexeme = t.lexeme

namespace Lexing

open Text Token

/-- Words in another case: the text has its tokens, and scanners in front of it see it as before. -/
theorem tokensFrom_recased {position : Nat} {cs ds : List Char} {ts : List Token}
    (lexed : tokensFrom position cs = .ok ts) (recased : RecasedFrom ts position cs ds) :
    (∃ us, tokensFrom position ds = .ok us ∧ List.Forall₂ SameButCase ts us) ∧ Reworded cs ds := by
  fun_induction tokensFrom position cs generalizing ts ds with
  | case1 position cs start =>
    rename_i visible
    cases lexed
    obtain rfl : ds = cs := by
      refine recased.eq_of_fixed fun n _ _ free => ?_
      obtain ⟨t, member, caseless, -⟩ := free
      cases List.mem_singleton.1 member
      cases caseless
    refine ⟨⟨_, ?_, .cons ⟨rfl, rfl, rfl, fun _ => rfl⟩ .nil⟩, .refl ds⟩
    rw [tokensFrom_eq, visible]
  | case2 => cases lexed
  | case3 => cases lexed
  | case4 position cs start c after visible kind tail scanned token less tokens =>
    rename_i more ih
    cases lexed
    have blank := List.all_eq_true.mp (List.all_takeWhile (p := isBlank) (l := cs))
    have whole := List.takeWhile_append_dropWhile (p := isBlank) (l := cs)
    have split := List.prefix_iff_eq_append.1 (scan_found scanned).tail_isPrefix
    have later : ∀ u ∈ tokens, token.stop ≤ u.start := by
      intro u member
      obtain ⟨front, -, -, place⟩ := (tokensFrom_layout more).placed u member
      omega
    rw [visible] at whole
    rw [← whole] at recased ⊢
    rw [← split, ← List.cons_append] at recased
    obtain ⟨lexeme, rest, rfl, same, fixed, others⟩ := RecasedFrom.token (t := token) rfl later recased
    obtain ⟨⟨us, relexed, alike⟩, reworded⟩ := ih more others
    refine ⟨⟨⟨kind, start, lexeme⟩ :: us, ?_, .cons ⟨rfl, rfl, same, fixed⟩ alike⟩,
      fun bound hold => ?_⟩
    · have again := rescans_reworded scanned reworded (tokensFrom_slash more) same fixed
      have lexes := (Lexes.blanks blank position _).append (.token again start)
      have size : byteLength lexeme = byteLength (c :: tail) := by
        rw [← byteLength_lower, same, byteLength_lower]
      have stop : position + byteLength (cs.takeWhile isBlank ++ lexeme) = token.stop := by
        rw [byteLength_append, size, ← Nat.add_assoc]
        rfl
      rw [Lexes, stop, relexed, List.append_assoc] at lexes
      exact lexes
    · -- Blanks do not bind, so a word is held fast only if it begins the text.
      refine .append _ (common_token scanned reworded same fixed fun bind => ?_)
      obtain ⟨empty, rfl⟩ := bindsLast_blanks blank bind
      rw [empty] at hold
      exact hold rfl

theorem tokenize_recased {s r : String} {ts : List Token} (lexed : tokenize s = .ok ts)
    (recased : Recased ts s.toList r.toList) :
    ∃ us, tokenize r = .ok us ∧ List.Forall₂ SameButCase ts us :=
  (tokensFrom_recased lexed recased.chars).1

end Lexing

end ClauseSql
