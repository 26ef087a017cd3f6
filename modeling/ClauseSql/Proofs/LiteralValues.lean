import ClauseSql.Model.Typing
import ClauseSql.Proofs.Lexing

/-! The literals that the lexer lets through have values. A number has the shape that is read as a
decimal, and a string stands between its quotes; only the digits of a date may fail to name one. -/
namespace ClauseSql.Lexing

open Text Token Notation

theorem digits_areDigits {cs : List Char} (some : (Numeral.digits cs).isEmpty = false) :
    areDigits (Numeral.digits cs) = true := by
  simp only [areDigits, some, Bool.not_false, Bool.true_and]
  exact List.all_takeWhile

theorem takeWhile_append {test : Char → Bool} {as bs : List Char} (all : as.all test = true)
    (stops : startsWith test bs = false) : (as ++ bs).takeWhile test = as := by
  rw [List.takeWhile_append_of_pos (List.all_eq_true.1 all)]
  cases bs with
  | nil => simp
  | cons b bs => simp_all [startsWith]

theorem numeral_parts {cs : List Char} (formed : (Numeral.scan cs).wellFormed = true) :
    ∃ later last, (Numeral.fraction later).wellFormed = true ∧
      (Numeral.exponent last).wellFormed = true ∧
      (Numeral.scan cs).taken =
        Numeral.digits cs ++ ((Numeral.fraction later).taken ++ (Numeral.exponent last).taken) := by
  have step : ∀ (s : Numeral.Scan) (next : List Char → Numeral.Scan),
      (s.andThen cs next).wellFormed = true → s.wellFormed = true ∧
        (next (cs.drop s.taken.length)).wellFormed = true ∧
        (s.andThen cs next).taken = s.taken ++ (next (cs.drop s.taken.length)).taken := by
    intro s next formed
    unfold Numeral.Scan.andThen at formed ⊢
    split
    · next before =>
      rw [if_pos before] at formed
      exact ⟨before, formed, rfl⟩
    · next before =>
      rw [if_neg before] at formed
      exact absurd formed before
  obtain ⟨formed, _, ended⟩ := step _ _ formed
  obtain ⟨formed, exponent, powered⟩ := step _ _ formed
  obtain ⟨_, fraction, placed⟩ := step _ _ formed
  refine ⟨_, _, fraction, exponent, ?_⟩
  rw [Numeral.scan, ended, powered, placed]
  simp [Numeral.ending]

theorem fraction_shape {cs : List Char} (formed : (Numeral.fraction cs).wellFormed = true) :
    (Numeral.fraction cs).taken = [] ∨
      ∃ ds, (Numeral.fraction cs).taken = '.' :: ds ∧ areDigits ds = true := by
  cases cs with
  | nil => exact .inl rfl
  | cons c cs =>
    by_cases point : c = '.'
    · subst point
      simp only [Numeral.fraction, if_true, Bool.not_eq_true'] at formed ⊢
      exact .inr ⟨_, rfl, digits_areDigits formed⟩
    · left
      simp only [Numeral.fraction, point, if_false]

theorem startsWith_digit {ds : List Char} (digits : areDigits ds = true) :
    startsWith Char.isDigit ds = true := by
  cases ds with
  | nil => cases digits
  | cons d ds =>
    simp only [areDigits, List.all_cons, Bool.and_eq_true] at digits
    exact digits.2.1

theorem signed_of_digit {cs : List Char} (digit : startsWith Char.isDigit cs = true) :
    signed cs = (false, cs) := by
  cases cs with
  | nil => cases digit
  | cons c cs =>
    have minus : c ≠ '-' := by rintro rfl; cases digit
    have plus : c ≠ '+' := by rintro rfl; cases digit
    simp only [signed, minus, plus, if_false]

theorem signed_of_sign {c : Char} {cs : List Char} (sign : c = '+' ∨ c = '-') :
    (signed (c :: cs)).2 = cs := by
  rcases sign with rfl | rfl <;> rfl

theorem integer?_sign {cs : List Char}
    (digits : areDigits (Numeral.digits (cs.drop (Numeral.sign cs).length)) = true) :
    (integer? (Numeral.sign cs ++ Numeral.digits (cs.drop (Numeral.sign cs).length))).isSome = true := by
  cases cs with
  | nil => cases digits
  | cons c cs =>
    by_cases mark : c = '+' ∨ c = '-'
    · simp only [Numeral.sign, mark, if_true, List.length_singleton, List.drop_succ_cons, List.drop_zero,
        List.singleton_append] at digits ⊢
      simp only [integer?, signed_of_sign mark, digits, if_true, Option.isSome_some]
    · simp only [Numeral.sign, mark, if_false, List.length_nil, List.drop_zero, List.nil_append]
        at digits ⊢
      simp only [integer?, signed_of_digit (startsWith_digit digits), digits, if_true,
        Option.isSome_some]

theorem exponent_shape {cs : List Char} (formed : (Numeral.exponent cs).wellFormed = true) :
    (power? (Numeral.exponent cs).taken).isSome = true ∧
      startsWith (fun c => c.isDigit || c == '.') (Numeral.exponent cs).taken = false := by
  cases cs with
  | nil => exact ⟨rfl, rfl⟩
  | cons c cs =>
    by_cases mark : c = 'e' ∨ c = 'E'
    · simp only [Numeral.exponent, mark, if_true, Bool.not_eq_true'] at formed ⊢
      refine ⟨?_, ?_⟩
      · simp only [power?, mark, if_true]
        exact integer?_sign (digits_areDigits formed)
      · rcases mark with rfl | rfl <;> rfl
    · simp only [Numeral.exponent, mark, if_false]
      exact ⟨rfl, rfl⟩

theorem decimal?_isSome {whole places power : List Char} (digits : whole.all Char.isDigit = true)
    (fraction : places = [] ∧ whole.isEmpty = false ∨ ∃ ds, places = '.' :: ds ∧ areDigits ds = true)
    (readable : (power? power).isSome = true)
    (stops : startsWith (fun c => c.isDigit || c == '.') power = false) :
    (decimal? (whole ++ (places ++ power))).isSome = true := by
  obtain ⟨value, read⟩ := Option.isSome_iff_exists.1 readable
  rcases fraction with ⟨rfl, some⟩ | ⟨ds, rfl, some⟩
  · have first : (whole ++ power).takeWhile Char.isDigit = whole := by
      refine takeWhile_append digits ?_
      cases power with
      | nil => rfl
      | cons c cs => simp_all [startsWith]
    simp only [decimal?, List.nil_append, first, List.drop_left, some, Bool.false_and]
    cases power with
    | nil => simp [read]
    | cons c cs =>
      have point : c ≠ '.' := by rintro rfl; cases stops
      simp [read, point]
  · have all : ds.all Char.isDigit = true := by
      simp only [areDigits, Bool.and_eq_true] at some
      exact some.2
    have first : (whole ++ '.' :: (ds ++ power)).takeWhile Char.isDigit = whole :=
      takeWhile_append digits rfl
    have second : (ds ++ power).takeWhile Char.isDigit = ds := by
      refine takeWhile_append all ?_
      cases power with
      | nil => rfl
      | cons c cs => simp_all [startsWith]
    have behind : ds.isEmpty = false := by
      cases ds with
      | nil => cases some
      | cons => rfl
    simp [decimal?, first, second, read, behind]

theorem number?_isSome {cs : List Char} (read : (decimal? (signed cs).2).isSome = true) :
    (Value.number? cs).isSome = true := by
  obtain ⟨d, read⟩ := Option.isSome_iff_exists.1 read
  have float : (binary64? cs).isSome = true := by
    simp only [binary64?]
    split
    · rfl
    · split
      · rfl
      · simp [read]
  unfold Value.number?
  split
  · rfl
  · simpa using float

theorem quotedRest?_closed {cs body rest : List Char} (read : quotedRest? cs = some (body, rest)) :
    ∃ inner, body = inner ++ ['\''] := by
  fun_induction quotedRest? cs generalizing body rest with
  | case1 => cases read
  | case2 cs ih =>
    obtain ⟨⟨found, more⟩, read, equal⟩ := Option.map_eq_some_iff.mp read
    obtain ⟨inner, rfl⟩ := ih read
    cases equal
    exact ⟨'\'' :: '\'' :: inner, rfl⟩
  | case3 cs =>
    cases read
    exact ⟨[], rfl⟩
  | case4 c cs _ _ ih =>
    obtain ⟨⟨found, more⟩, read, equal⟩ := Option.map_eq_some_iff.mp read
    obtain ⟨inner, rfl⟩ := ih read
    cases equal
    exact ⟨c :: inner, rfl⟩

theorem unquote?_quoted (inner : List Char) :
    Typing.unquote? ('\'' :: (inner ++ ['\''])) = some (String.ofList (undoubleQuotes inner)) := by
  have quote : Char.utf8Size '\'' = 1 := by decide
  have slice := slice?_append ['\''] inner ['\'']
  have stop : byteLength ('\'' :: (inner ++ ['\''])) - 1 = byteLength ['\''] + byteLength inner := by
    simp only [byteLength_cons, byteLength_append, byteLength_nil, quote]
    omega
  have long : ¬ byteLength ('\'' :: (inner ++ ['\''])) < 2 := by
    simp only [byteLength_cons, byteLength_append, byteLength_nil, quote]
    omega
  have start : byteLength ['\''] = 1 := by decide
  unfold Typing.unquote?
  rw [if_neg long, stop, ← start]
  rw [List.singleton_append] at slice
  rw [slice]
  rfl

/-- Whether a literal of a kind has a value, apart from the days and times that dates name. -/
def Meaningful (kind : LiteralKind) (text : List Char) : Prop :=
  match kind with
  | .number => (Value.number? text).isSome = true
  | .string => (Typing.unquote? text).isSome = true
  | _ => True

theorem digits_nonempty {cs : List Char} (digit : startsWith Char.isDigit cs = true) :
    (Numeral.digits cs).isEmpty = false := by
  cases cs with
  | nil => cases digit
  | cons c cs =>
    have first : c.isDigit = true := digit
    simp [Numeral.digits, first]

theorem number_meaningful (sign : List Char) {cs : List Char} (digit : startsWith Char.isDigit cs = true)
    (formed : (Numeral.scan cs).wellFormed = true)
    (unsigned : (signed (sign ++ (Numeral.scan cs).taken)).2 = (Numeral.scan cs).taken) :
    (Value.number? (sign ++ (Numeral.scan cs).taken)).isSome = true := by
  refine number?_isSome ?_
  obtain ⟨later, last, fraction, exponent, taken⟩ := numeral_parts formed
  obtain ⟨power, stops⟩ := exponent_shape exponent
  rw [unsigned, taken]
  refine decimal?_isSome List.all_takeWhile ?_ power stops
  rcases fraction_shape fraction with none | placed
  · exact .inl ⟨none, digits_nonempty digit⟩
  · exact .inr placed

theorem fraction_meaningful {c : Char} {cs : List Char} (sign : c = '+' ∨ c = '-')
    (digit : startsWith Char.isDigit cs = true) :
    (Value.number? (c :: '.' :: Numeral.digits cs)).isSome = true := by
  have some : (Numeral.digits cs).isEmpty = false := digits_nonempty digit
  refine number?_isSome ?_
  rw [signed_of_sign sign]
  have read : (decimal? ([] ++ ('.' :: Numeral.digits cs ++ []))).isSome = true :=
    decimal?_isSome rfl (.inr ⟨Numeral.digits cs, rfl, digits_areDigits some⟩) rfl rfl
  simpa using read

theorem nameKind_meaningful {name rest text : List Char} {kind : LiteralKind}
    (named : nameKind name rest = .literal kind) : Meaningful kind text := by
  have member := nameKind_mem name rest
  rw [named] at member
  cases kind with
  | number | string => exact absurd member (by decide)
  | _ => trivial

theorem Found.meaningful {c : Char} {cs tail : List Char} {found : TokenKind} {kind : LiteralKind}
    (scanned : Found c cs found tail) (literal : found = .literal kind) :
    Meaningful kind (c :: tail) := by
  cases scanned with
  | openParen | closeParen | comma => cases literal
  | string quoted =>
    cases literal
    obtain ⟨inner, rfl⟩ := quotedRest?_closed quoted
    simp [Meaningful, unquote?_quoted]
  | signed sign digit formed =>
    cases literal
    exact number_meaningful [c] digit formed (signed_of_sign sign)
  | signedFraction sign digit =>
    cases literal
    exact fraction_meaningful sign digit
  | dated digit read =>
    cases literal
    rcases (dated_isPrefix read).2 with rfl | rfl <;> trivial
  | number digit formed =>
    cases literal
    have whole : (Numeral.scan (c :: cs)).taken = c :: (Numeral.scan (c :: cs)).taken.tail := by
      obtain ⟨_, _, _, _, taken⟩ := numeral_parts formed
      rw [taken]
      simp [Numeral.digits, digit]
    have unsigned : (Notation.signed ([] ++ (Numeral.scan (c :: cs)).taken)).2 =
        (Numeral.scan (c :: cs)).taken := by
      rw [List.nil_append, signed_of_digit]
      rw [whole]
      exact digit
    have read := number_meaningful [] (show startsWith Char.isDigit (c :: cs) = true from digit) formed
      unsigned
    rw [List.nil_append, whole] at read
    exact read
  | name letter => exact nameKind_meaningful literal

/-- Every literal among the tokens of a source has a value, unless it is a date. -/
theorem tokenize_meaningful {source : String} {ts : List Token} (lexed : tokenize source = .ok ts)
    {t : Token} (member : t ∈ ts) {kind : LiteralKind} (literal : t.kind = .literal kind) :
    Meaningful kind t.lexeme := by
  rcases (tokenize_layout lexed).found t member with eof | ⟨c, tail, rest, lexeme, found⟩
  · rw [eof] at literal
    cases literal
  · rw [lexeme]
    exact found.meaningful literal

end ClauseSql.Lexing
