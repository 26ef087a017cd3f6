import ClauseSql.Proofs.ArgumentOrder
import Mathlib.Data.List.Infix

/-! Patterns against texts. A pattern is read from left to right, with a choice at every percent sign
of how much of the text it stands for. The pattern of a string match leaves no such choice inside the
user's word, so a text fits it exactly if the word stands where the match looks for it. -/
namespace ClauseSql

namespace Like

/-- Whether a text fits a pattern. A percent sign stands for any characters and an underscore for any
single one. Behind a backslash every character stands for itself, and so do all others. -/
def fits : List Char → List Char → Bool
  | [], text => text.isEmpty
  | '%' :: pattern, text => text.tails.any (fits pattern)
  | '_' :: pattern, text => !text.isEmpty && fits pattern text.tail
  | '\\' :: c :: pattern, text => text.head? == some c && fits pattern text.tail
  | c :: pattern, text => text.head? == some c && fits pattern text.tail

def dangles : List Char → Bool
  | [] => false
  | ['\\'] => true
  | '\\' :: _ :: pattern => dangles pattern
  | _ :: pattern => dangles pattern

theorem fits_percent {pattern text : List Char} :
    fits ('%' :: pattern) text = true ↔
      ∃ before rest, text = before ++ rest ∧ fits pattern rest = true := by
  simp only [fits, List.any_eq_true, List.mem_tails]
  constructor
  · rintro ⟨rest, ⟨before, rfl⟩, fit⟩
    exact ⟨before, rest, rfl, fit⟩
  · rintro ⟨before, rest, rfl, fit⟩
    exact ⟨rest, List.suffix_append before rest, fit⟩

theorem fits_everything (text : List Char) : fits ['%'] text = true :=
  fits_percent.2 ⟨text, [], (List.append_nil text).symm, rfl⟩

theorem head_tail_iff {c : Char} {pattern text : List Char} :
    (text.head? == some c && fits pattern text.tail) = true ↔
      ∃ rest, text = c :: rest ∧ fits pattern rest = true := by
  cases text with
  | nil => simp
  | cons d text =>
    simp only [List.head?_cons, List.tail_cons, Bool.and_eq_true, beq_iff_eq, Option.some.injEq,
      List.cons.injEq]
    constructor
    · rintro ⟨rfl, fit⟩
      exact ⟨text, ⟨rfl, rfl⟩, fit⟩
    · rintro ⟨rest, ⟨rfl, rfl⟩, fit⟩
      exact ⟨rfl, fit⟩

theorem fits_escape_cons {c : Char} {word pattern text : List Char} :
    fits (escape (c :: word) ++ pattern) text = true ↔
      ∃ rest, text = c :: rest ∧ fits (escape word ++ pattern) rest = true := by
  by_cases special : isSpecial c = true
  · simp only [escape, special, if_true, List.cons_append, fits]
    exact head_tail_iff
  · have percent : c ≠ '%' := by rintro rfl; exact special rfl
    have underscore : c ≠ '_' := by rintro rfl; exact special rfl
    have backslash : c ≠ '\\' := by rintro rfl; exact special rfl
    rw [escape, if_neg special, List.cons_append, fits]
    · exact head_tail_iff
    · exact percent
    · exact underscore
    · intro _ _ same
      exact absurd same backslash

theorem fits_escape {word pattern text : List Char} :
    fits (escape word ++ pattern) text = true ↔
      ∃ rest, text = word ++ rest ∧ fits pattern rest = true := by
  induction word generalizing text with
  | nil => simp [escape]
  | cons c word ih =>
    rw [fits_escape_cons]
    constructor
    · rintro ⟨rest, rfl, here⟩
      obtain ⟨more, rfl, fit⟩ := ih.1 here
      exact ⟨more, rfl, fit⟩
    · rintro ⟨rest, rfl, fit⟩
      exact ⟨word ++ rest, rfl, ih.2 ⟨rest, rfl, fit⟩⟩

theorem fits_escape_nil {word text : List Char} : fits (escape word) text = true ↔ text = word := by
  have whole := @fits_escape word [] text
  simp only [List.append_nil, fits, List.isEmpty_iff, exists_eq_right] at whole
  exact whole

theorem fits_escape_percent {word text : List Char} :
    fits (escape word ++ ['%']) text = true ↔ word <+: text := by
  rw [fits_escape]
  constructor
  · rintro ⟨rest, rfl, -⟩
    exact List.prefix_append word rest
  · rintro ⟨rest, rfl⟩
    exact ⟨rest, rfl, fits_everything rest⟩

theorem fits_percent_escape {word text : List Char} :
    fits ('%' :: escape word) text = true ↔ word <:+ text := by
  rw [fits_percent]
  constructor
  · rintro ⟨before, rest, rfl, fit⟩
    rw [fits_escape_nil.1 fit]
    exact List.suffix_append before word
  · rintro ⟨before, rfl⟩
    exact ⟨before, word, rfl, fits_escape_nil.2 rfl⟩

theorem fits_percent_escape_percent {word text : List Char} :
    fits ('%' :: (escape word ++ ['%'])) text = true ↔ word <:+: text := by
  rw [fits_percent]
  constructor
  · rintro ⟨before, rest, rfl, fit⟩
    obtain ⟨after, rfl⟩ := fits_escape_percent.1 fit
    exact ⟨before, after, by simp⟩
  · rintro ⟨before, after, rfl⟩
    exact ⟨before, word ++ after, by simp, fits_escape_percent.2 (List.prefix_append word after)⟩

theorem dangles_escape (word pattern : List Char) :
    dangles (escape word ++ pattern) = dangles pattern := by
  induction word with
  | nil => rfl
  | cons c word ih =>
    by_cases special : isSpecial c = true
    · simpa only [escape, special, if_true, List.cons_append, dangles] using ih
    · have backslash : c ≠ '\\' := by rintro rfl; exact special rfl
      rw [escape, if_neg special, List.cons_append, dangles]
      · exact ih
      · intro same
        exact absurd same backslash
      · intro _ _ same
        exact absurd same backslash

end Like

def StringMatch.Holds : StringMatch → List Char → List Char → Prop
  | contains, word, text => word <:+: text
  | startsWith, word, text => word <+: text
  | endsWith, word, text => word <:+ text

namespace Like

def patternChars : StringMatch → List Char → List Char
  | .contains, word => '%' :: (escape word ++ ['%'])
  | .startsWith, word => escape word ++ ['%']
  | .endsWith, word => '%' :: escape word

theorem pattern?_eq (kind : StringMatch) (word : String) :
    pattern? kind.operator word = some (String.ofList (patternChars kind word.toList)) := by
  cases kind <;> simp [StringMatch.operator, pattern?, escapeText, patternChars, ← String.toList_inj]

theorem fits_patternChars {kind : StringMatch} {word text : List Char} :
    fits (patternChars kind word) text = true ↔ kind.Holds word text := by
  cases kind with
  | contains => exact fits_percent_escape_percent
  | startsWith => exact fits_escape_percent
  | endsWith => exact fits_percent_escape

theorem dangles_patternChars (kind : StringMatch) (word : List Char) :
    dangles (patternChars kind word) = false := by
  have alone : dangles (escape word) = false := by simpa [dangles] using dangles_escape word []
  have followed : dangles (escape word ++ ['%']) = false := dangles_escape word ['%']
  cases kind with
  | contains => simpa [patternChars, dangles] using followed
  | startsWith => exact followed
  | endsWith => simpa [patternChars, dangles] using alone

theorem holds_infix {kind : StringMatch} {word text : List Char} (holds : kind.Holds word text) :
    word <:+: text := by
  cases kind with
  | contains => exact holds
  | startsWith => exact List.IsPrefix.isInfix holds
  | endsWith => exact List.IsSuffix.isInfix holds

theorem holds_self (kind : StringMatch) (word : List Char) : kind.Holds word word := by
  cases kind with
  | contains => exact List.infix_rfl
  | startsWith => exact List.prefix_rfl
  | endsWith => exact List.suffix_rfl

/-- A pattern tells which word it was made from, and unless the word is empty also for which
match. -/
theorem patternChars_inj {kind other : StringMatch} {word words : List Char}
    (same : patternChars kind word = patternChars other words) :
    word = words ∧ (kind = other ∨ word = []) := by
  have holds (text : List Char) : kind.Holds word text ↔ other.Holds words text := by
    rw [← fits_patternChars, ← fits_patternChars, same]
  have first := holds_infix ((holds words).2 (holds_self other words))
  have second := holds_infix ((holds word).1 (holds_self kind word))
  obtain rfl : word = words := first.eq_of_length_le second.length_le
  refine ⟨rfl, ?_⟩
  cases word with
  | nil => exact .inr rfl
  | cons c word =>
    have opens : ∀ rest, escape (c :: word) ++ ['%'] ≠ '%' :: rest := by
      intro rest
      by_cases special : isSpecial c = true
      · simp [escape, special]
      · have percent : c ≠ '%' := by rintro rfl; exact special rfl
        simp [escape, special, percent]
    have size := congrArg List.length same
    left
    cases kind <;> cases other <;>
      first
        | rfl
        | exact absurd same (opens _)
        | exact absurd same.symm (opens _)
        | simp [patternChars] at size

end Like

/-- The last argument of a string match is a pattern that the texts fit in which the match finds its
word, and no others. -/
theorem like_argument_matches_literally (kind : StringMatch) (word : String) :
    ∃ pattern : String, pattern.toList = Like.patternChars kind word.toList ∧
      (∀ text : String, Like.fits pattern.toList text.toList = true ↔
        kind.Holds word.toList text.toList) ∧
      Like.dangles pattern.toList = false ∧
      ∀ d entity target out,
        Generation.filterSql d entity (.stringMatch kind.operator target word) = .ok out →
        out.args = target.bound d ++ [.text pattern] := by
  have made := Like.pattern?_eq kind word
  refine ⟨String.ofList (Like.patternChars kind word.toList), String.toList_ofList, ?_, ?_, ?_⟩
  · intro text
    rw [String.toList_ofList]
    exact Like.fits_patternChars
  · rw [String.toList_ofList]
    exact Like.dangles_patternChars kind word.toList
  · intro d entity target out generated
    rw [Generation.filterSql_args generated, Filter.bound, Filter.patternValue, made]
    rfl

theorem like_argument_matches_percent_backslash :
    Generation.filterSql .mysql account
      (.stringMatch .endsWith (.call .concat [.property "Owner/Name", .literal (.text "!")]) "5%\\") =
        .ok ⟨"CONCAT(owner.name, ?) LIKE ? ESCAPE '\\\\'", [.text "!", .text "%5\\%\\\\"]⟩ ∧
    (Like.fits "%5\\%\\\\".toList "15%\\".toList = true ↔ "5%\\".toList <:+ "15%\\".toList) ∧
    Like.dangles "%5\\%\\\\".toList = false := by
  obtain ⟨pattern, -, fit, dangle, last⟩ := like_argument_matches_literally .endsWith "5%\\"
  have made : Generation.filterSql .mysql account
      (.stringMatch .endsWith (.call .concat [.property "Owner/Name", .literal (.text "!")]) "5%\\") =
        .ok ⟨"CONCAT(owner.name, ?) LIKE ? ESCAPE '\\\\'", [.text "!", .text "%5\\%\\\\"]⟩ := by
    decide +kernel
  have same : pattern = "%5\\%\\\\" := by
    have args := last _ _ _ _ made
    have order : Operand.bound .mysql (.call .concat [.property "Owner/Name", .literal (.text "!")]) =
        [.text "!"] := by decide +kernel
    rw [order] at args
    simpa using args.symm
  rw [same] at fit dangle
  exact ⟨made, fit "15%\\", dangle⟩

end ClauseSql
