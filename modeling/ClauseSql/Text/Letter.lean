/-! The character classes of the clause language. They know ASCII only: a name is made of ASCII
letters, digits and underscores, and only the five ASCII blanks separate tokens. -/
namespace ClauseSql.Text

def isBlank (c : Char) : Bool :=
  c == ' ' || c == '\t' || c == '\n' || c == '\x0c' || c == '\r'

def isNameStart (c : Char) : Bool := c.isAlpha || c == '_'

def isNameChar (c : Char) : Bool := c.isAlphanum || c == '_'

def continuesNumber (c : Char) : Bool := isNameChar c || c == '.'

def lower (cs : List Char) : List Char := cs.map Char.toLower

def lowerCase (s : String) : String := String.ofList (lower s.toList)

def startsWith (test : Char → Bool) : List Char → Bool
  | [] => false
  | c :: _ => test c

theorem isDigit_iff {c : Char} : c.isDigit = true ↔ 48 ≤ c.toNat ∧ c.toNat ≤ 57 :=
  Bool.and_eq_true_iff.trans (and_congr decide_eq_true_iff decide_eq_true_iff)

theorem isNameStart_iff {c : Char} :
    isNameStart c = true ↔
      65 ≤ c.toNat ∧ c.toNat ≤ 90 ∨ 97 ≤ c.toNat ∧ c.toNat ≤ 122 ∨ c = '_' := by
  have alpha : c.isAlpha = true ↔ c.isUpper = true ∨ c.isLower = true := Bool.or_eq_true_iff
  have upper : c.isUpper = true ↔ 65 ≤ c.toNat ∧ c.toNat ≤ 90 := decide_eq_true_iff
  have lower : c.isLower = true ↔ 97 ≤ c.toNat ∧ c.toNat ≤ 122 :=
    Bool.and_eq_true_iff.trans (and_congr decide_eq_true_iff decide_eq_true_iff)
  rw [isNameStart, Bool.or_eq_true, alpha, upper, lower, beq_iff_eq, or_assoc]

theorem isNameChar_iff {c : Char} : isNameChar c = true ↔ isNameStart c = true ∨ c.isDigit = true := by
  have alphanum : c.isAlphanum = true ↔ c.isAlpha = true ∨ c.isDigit = true := Bool.or_eq_true_iff
  rw [isNameChar, isNameStart, Bool.or_eq_true, Bool.or_eq_true, alphanum, or_right_comm]

theorem isNameStart_of_upper {c : Char} (upper : c.isUpper = true) : isNameStart c = true :=
  Bool.or_eq_true_iff.2 (.inl (Bool.or_eq_true_iff.2 (.inl upper)))

theorem isNameChar_of_start {c : Char} (letter : isNameStart c = true) : isNameChar c = true :=
  isNameChar_iff.2 (.inl letter)

theorem isDigit_of_start {c : Char} (letter : isNameStart c = true) : c.isDigit = false := by
  rw [Bool.eq_false_iff]
  intro digit
  rw [isDigit_iff] at digit
  obtain upper | lower | rfl := isNameStart_iff.1 letter
  · omega
  · omega
  · exact absurd digit (by decide)

@[simp] theorem length_lower (cs : List Char) : (lower cs).length = cs.length := by simp [lower]

end ClauseSql.Text
