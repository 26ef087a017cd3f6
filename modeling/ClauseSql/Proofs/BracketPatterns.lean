import ClauseSql.Proofs.LiteralPatterns

/-! Patterns with sets of characters. SQL Server reads brackets in a pattern as well: they stand for
one of the characters between them. A word is not written with its brackets escaped, so the texts that
fit its pattern are the ones that hold the word exactly if no bracket opens in it. -/
namespace ClauseSql

namespace Like

structure SetChar where
  char : Char
  escaped : Bool

/-- Whether a character is named between brackets. A hyphen between two characters names all from the
first to the second. -/
def named : List SetChar → Char → Bool
  | low :: ⟨'-', false⟩ :: high :: set, c => (low.char ≤ c && c ≤ high.char) || named set c
  | d :: set, c => d.char == c || named set c
  | [], _ => false

inductive CharSet
  | all
  | only (c : Char)
  | listed (set : List SetChar)

def CharSet.takes : CharSet → Char → Bool
  | all, _ => true
  | only d, c => d == c
  | listed (⟨'^', false⟩ :: set), c => !named set c
  | listed set, c => named set c

inductive Piece
  | run
  | one (set : CharSet)

/-- Reads a pattern, outside of brackets or behind an opening one and what follows it. A pattern that
ends between brackets or with a backslash is none. -/
def pieces? : Option (List SetChar) → List Char → Option (List Piece)
  | none, [] => some []
  | none, '%' :: pattern => (pieces? none pattern).map (.run :: ·)
  | none, '_' :: pattern => (pieces? none pattern).map (.one .all :: ·)
  | none, '[' :: pattern => pieces? (some []) pattern
  | none, ['\\'] => none
  | none, '\\' :: c :: pattern => (pieces? none pattern).map (.one (.only c) :: ·)
  | none, c :: pattern => (pieces? none pattern).map (.one (.only c) :: ·)
  | some _, [] => none
  | some set, ']' :: pattern => (pieces? none pattern).map (.one (.listed set) :: ·)
  | some _, ['\\'] => none
  | some set, '\\' :: c :: pattern => pieces? (some (set ++ [⟨c, true⟩])) pattern
  | some set, c :: pattern => pieces? (some (set ++ [⟨c, false⟩])) pattern

def fitsPieces : List Piece → List Char → Bool
  | [], text => text.isEmpty
  | .run :: pieces, text => text.tails.any (fitsPieces pieces)
  | .one set :: pieces, text => text.head?.any set.takes && fitsPieces pieces text.tail

def fitsSets (pattern text : List Char) : Bool :=
  (pieces? none pattern).any (fitsPieces · text)

theorem any_one {set : CharSet} {pieces : Option (List Piece)} {text : List Char} :
    (pieces.map (.one set :: ·)).any (fitsPieces · text) =
      (text.head?.any set.takes && pieces.any (fitsPieces · text.tail)) := by
  cases pieces with
  | none => simp
  | some pieces => rfl

theorem any_run {pieces : Option (List Piece)} {text : List Char} :
    (pieces.map (.run :: ·)).any (fitsPieces · text) =
      text.tails.any fun rest => pieces.any (fitsPieces · rest) := by
  cases pieces with
  | none => simp
  | some pieces => rfl

theorem any_only {c : Char} {text : List Char} :
    text.head?.any (CharSet.only c).takes = (text.head? == some c) := by
  cases text with
  | nil => rfl
  | cons d text => simp [CharSet.takes, Bool.beq_comm]

theorem fitsSets_eq_fits {pattern : List Char} (plain : '[' ∉ pattern)
    (complete : dangles pattern = false) (text : List Char) :
    fitsSets pattern text = fits pattern text := by
  fun_induction dangles pattern generalizing text with
  | case1 => rfl
  | case2 => simp at complete
  | case3 c pattern ih =>
    have later := ih (by simp_all) complete text.tail
    rw [fitsSets, pieces?, any_one, any_only, fits, ← later, fitsSets]
  | case4 c pattern alone escape ih =>
    have later := ih (by simp_all) complete
    by_cases percent : c = '%'
    · subst percent
      rw [fitsSets, pieces?, any_run, fits]
      exact congrArg text.tails.any (funext later)
    by_cases underscore : c = '_'
    · subst underscore
      rw [fitsSets, pieces?, any_one, fits, ← later, fitsSets]
      cases text <;> rfl
    have backslash : c ≠ '\\' := by
      rintro rfl
      cases pattern with
      | nil => exact alone rfl rfl
      | cons d pattern => exact escape d pattern rfl rfl
    have bracket : c ≠ '[' := by
      rintro rfl
      simp at plain
    rw [fitsSets, pieces?, any_one, any_only, fits, ← later, fitsSets]
    all_goals grind

def width : List Piece → Nat
  | [] => 0
  | .run :: pieces => width pieces
  | .one _ :: pieces => width pieces + 1

theorem exists_fitsPieces_width {pieces : List Piece} {text : List Char}
    (fit : fitsPieces pieces text = true) :
    ∃ core, fitsPieces pieces core = true ∧ core.length = width pieces := by
  induction pieces generalizing text with
  | nil => exact ⟨[], rfl, rfl⟩
  | cons piece pieces ih =>
    cases piece with
    | run =>
      simp only [fitsPieces, List.any_eq_true] at fit
      obtain ⟨rest, -, fit⟩ := fit
      obtain ⟨core, fit, size⟩ := ih fit
      refine ⟨core, ?_, size⟩
      simp only [fitsPieces, List.any_eq_true, List.mem_tails]
      exact ⟨core, List.suffix_rfl, fit⟩
    | one set =>
      simp only [fitsPieces, Bool.and_eq_true] at fit
      cases text with
      | nil => simp at fit
      | cons c text =>
        obtain ⟨core, more, size⟩ := ih fit.2
        refine ⟨c :: core, ?_, by simp [width, size]⟩
        simpa only [fitsPieces, Bool.and_eq_true] using ⟨fit.1, more⟩

theorem pieces?_none_escape_cons {c : Char} {word pattern : List Char} :
    pieces? none (escape (c :: word) ++ pattern) =
      if c = '[' then pieces? (some []) (escape word ++ pattern)
      else (pieces? none (escape word ++ pattern)).map (.one (.only c) :: ·) := by
  by_cases special : isSpecial c = true
  · have bracket : c ≠ '[' := by rintro rfl; simp [isSpecial] at special
    simp only [escape, special, if_true, List.cons_append, pieces?, if_neg bracket]
  · have percent : c ≠ '%' := by rintro rfl; exact special rfl
    have underscore : c ≠ '_' := by rintro rfl; exact special rfl
    have backslash : c ≠ '\\' := by rintro rfl; exact special rfl
    rw [escape, if_neg special, List.cons_append]
    split_ifs with bracket
    · rw [bracket, pieces?]
    · rw [pieces?] <;> grind

theorem pieces?_some_escape_cons {set : List SetChar} {c : Char} {word pattern : List Char} :
    pieces? (some set) (escape (c :: word) ++ pattern) =
      if c = ']' then (pieces? none (escape word ++ pattern)).map (.one (.listed set) :: ·)
      else pieces? (some (set ++ [⟨c, isSpecial c⟩])) (escape word ++ pattern) := by
  by_cases special : isSpecial c = true
  · have bracket : c ≠ ']' := by rintro rfl; simp [isSpecial] at special
    simp only [escape, special, if_true, List.cons_append, pieces?, if_neg bracket]
  · have backslash : c ≠ '\\' := by rintro rfl; exact special rfl
    rw [escape, if_neg special, List.cons_append, Bool.eq_false_iff.2 special]
    split_ifs with bracket
    · rw [bracket, pieces?]
    · rw [pieces?] <;> grind

theorem width_escape {word pattern : List Char} {state : Option (List SetChar)} {pieces : List Piece}
    (unclosed : ∀ set, pieces? (some set) pattern = none)
    (narrow : ∀ pieces, pieces? none pattern = some pieces → width pieces = 0)
    (read : pieces? state (escape word ++ pattern) = some pieces) :
    width pieces ≤ word.length ∧ (state = none → '[' ∈ word → width pieces < word.length) := by
  induction word generalizing state pieces with
  | nil =>
    cases state with
    | none => exact ⟨(narrow pieces read).le, by simp⟩
    | some set => simp [escape, unclosed] at read
  | cons c word ih =>
    rw [List.length_cons]
    cases state with
    | none =>
      rw [pieces?_none_escape_cons] at read
      split_ifs at read with bracket
      · have bound := (ih read).1
        exact ⟨by omega, fun _ _ => by omega⟩
      · obtain ⟨later, found, rfl⟩ := Option.map_eq_some_iff.1 read
        have bound := ih found
        refine ⟨by simpa [width] using bound.1, fun _ inside => ?_⟩
        obtain rfl | inside := List.mem_cons.1 inside
        · exact absurd rfl bracket
        · simpa [width] using bound.2 rfl inside
    | some set =>
      rw [pieces?_some_escape_cons] at read
      split_ifs at read with bracket
      · obtain ⟨later, found, rfl⟩ := Option.map_eq_some_iff.1 read
        exact ⟨by simpa [width] using (ih found).1, by simp⟩
      · exact ⟨by have bound := (ih read).1; omega, by simp⟩

theorem mem_escape {c : Char} {word : List Char} (inside : c ∈ escape word) :
    c = '\\' ∨ c ∈ word := by
  fun_induction escape word with grind

theorem width_patternChars {kind : StringMatch} {word : List Char} {pieces : List Piece}
    (bracket : '[' ∈ word) (read : pieces? none (patternChars kind word) = some pieces) :
    width pieces < word.length := by
  have alone {pieces : List Piece} (read : pieces? none (escape word) = some pieces) :
      width pieces < word.length := by
    refine (@width_escape word [] none pieces (fun _ => rfl) ?_ (by simpa using read)).2 rfl bracket
    rintro _ ⟨⟩
    rfl
  have followed {pieces : List Piece} (read : pieces? none (escape word ++ ['%']) = some pieces) :
      width pieces < word.length := by
    refine (width_escape (fun _ => rfl) ?_ read).2 rfl bracket
    rintro _ ⟨⟩
    rfl
  cases kind with
  | contains =>
    obtain ⟨later, found, rfl⟩ := Option.map_eq_some_iff.1 read
    simpa [width] using followed found
  | startsWith => exact followed read
  | endsWith =>
    obtain ⟨later, found, rfl⟩ := Option.map_eq_some_iff.1 read
    simpa [width] using alone found

theorem bracket_patternChars {kind : StringMatch} {word : List Char} (plain : '[' ∉ word) :
    '[' ∉ patternChars kind word := by
  have escaped : '[' ∉ escape word := fun inside => by
    rcases mem_escape inside with same | inside
    · simp at same
    · exact plain inside
  cases kind <;> simp [patternChars, escaped]

/-- The texts that fit the pattern of a word are the ones that hold it, exactly if no bracket opens
in the word. -/
theorem fitsSets_patternChars {kind : StringMatch} {word : List Char} :
    (∀ text, fitsSets (patternChars kind word) text = true ↔ kind.Holds word text) ↔
      '[' ∉ word := by
  constructor
  · intro literal bracket
    -- The word itself fits, so a text as short as the pattern allows fits too.
    have whole := (literal word).2 (holds_self kind word)
    obtain ⟨pieces, read, fit⟩ := (Option.any_eq_true _ _).1 whole
    obtain ⟨core, fit, size⟩ := exists_fitsPieces_width fit
    have holds := (literal core).1 (by rw [fitsSets, read]; exact fit)
    have inside : word <:+: core := holds_infix holds
    have long := inside.length_le
    have short := width_patternChars bracket read
    omega
  · intro plain text
    rw [fitsSets_eq_fits (bracket_patternChars plain) (dangles_patternChars kind word)]
    exact fits_patternChars

end Like

/-- On SQL Server the last argument of a string match is a pattern that the texts fit in which the match
finds its word, and no others, exactly if no bracket opens in the word. -/
theorem sqlServer_words_are_literal_iff_unbracketed (kind : StringMatch) (word : String) :
    ∃ pattern : String,
      (∀ entity target out,
        Generation.filterSql .sqlServer entity (.stringMatch kind.operator target word) = .ok out →
        out.args = target.bound .sqlServer ++ [.text pattern]) ∧
      ((∀ text : String, Like.fitsSets pattern.toList text.toList = true ↔
        kind.Holds word.toList text.toList) ↔ '[' ∉ word.toList) := by
  have made := Like.pattern?_eq kind word
  refine ⟨String.ofList (Like.patternChars kind word.toList), ?_, ?_⟩
  · intro entity target out generated
    rw [Generation.filterSql_args generated, Filter.bound, Filter.patternValue, made]
    rfl
  · rw [String.toList_ofList, ← Like.fitsSets_patternChars]
    constructor
    · intro literal text
      simpa using literal (String.ofList text)
    · intro literal text
      exact literal text.toList

/-- A hyphen, a percent sign and a closing bracket alone are no sets. -/
theorem sqlServer_words_are_literal_iff_unbracketed_closing :
    Generation.filterSql .sqlServer account
      (.stringMatch .startsWith (.property "Owner/Name") "a-5%]") =
        .ok ⟨"owner.name LIKE ? ESCAPE '\\'", [.text "a-5\\%]%"]⟩ ∧
    '[' ∉ "a-5%]".toList ∧
    (Like.fitsSets "a-5\\%]%".toList "a-5%]b".toList = true ↔ "a-5%]".toList <+: "a-5%]b".toList) := by
  obtain ⟨pattern, last, literal⟩ := sqlServer_words_are_literal_iff_unbracketed .startsWith "a-5%]"
  have made : Generation.filterSql .sqlServer account
      (.stringMatch .startsWith (.property "Owner/Name") "a-5%]") =
        .ok ⟨"owner.name LIKE ? ESCAPE '\\'", [.text "a-5\\%]%"]⟩ := by
    decide +kernel
  have same : pattern = "a-5\\%]%" := by simpa [Operand.bound] using (last _ _ _ made).symm
  have plain : '[' ∉ "a-5%]".toList := by decide
  rw [same] at literal
  exact ⟨made, plain, literal.2 plain "a-5%]b"⟩

/-- A word in brackets is looked for as one of the characters between them. -/
theorem sqlServer_bracketed_word_is_a_set :
    Generation.filterSql .sqlServer account
      (.stringMatch .contains (.property "Owner/Name") "[a]") =
        .ok ⟨"owner.name LIKE ? ESCAPE '\\'", [.text "%[a]%"]⟩ ∧
    Like.fitsSets "%[a]%".toList "a".toList = true ∧ ¬ "[a]".toList <:+: "a".toList := by
  refine ⟨by decide +kernel, by decide, by decide⟩

end ClauseSql
