import ClauseSql.Proofs.Phrases

/-! The grammar of whole clauses: a filter is a phrase, the items of the other clauses are phrases with
a name or a direction behind them, and commas between the items. The parser reads whatever this grammar
derives, or says that it is too deep. -/
namespace ClauseSql

namespace Grammar

open ClauseSql.Parser

inductive DerivesItem : Clause → List Token → ParsedExpr → Nat → Prop
  | condition {ts : List Token} {e : ParsedExpr} {n : Nat} :
      Derives .or ts e n → DerivesItem .filter ts e n
  | named {ts : List Token} {t name : Token} {e : ParsedExpr} {n : Nat} :
      Derives .or ts e n → t.kind = .asWord → name.kind = .identifier →
      DerivesItem .compute (ts ++ [t, name]) (.named e name.span) n
  | ordered {ts : List Token} {e : ParsedExpr} {n : Nat} :
      Derives .or ts e n → DerivesItem .orderBy ts (.ordered e false) n
  | directed {ts : List Token} {t : Token} {e : ParsedExpr} {descending : Bool} {n : Nat} :
      Derives .or ts e n → t.kind = .identifier → direction? t.lexeme = some descending →
      DerivesItem .orderBy (ts ++ [t]) (.ordered e descending) n

inductive Series (phrase : List Token → ParsedExpr → Nat → Prop) :
    List Token → List ParsedExpr → Nat → Prop
  | one {ts : List Token} {e : ParsedExpr} {n : Nat} : phrase ts e n → Series phrase ts [e] n
  | more {t : Token} {ts us : List Token} {e : ParsedExpr} {es : List ParsedExpr} {n m : Nat} :
      t.kind = .comma → phrase ts e n → Series phrase us es m →
      Series phrase (ts ++ t :: us) (e :: es) (max n m)

theorem Series.derivesAll {ts : List Token} {es : List ParsedExpr} {n : Nat}
    (series : Series (Derives .or) ts es n) : DerivesAll ts es n := by
  induction series with
  | one phrase => exact .one phrase
  | more comma phrase _ ih => exact .more comma phrase ih

/-- What a parser makes of something that keeps to the limits or does not. -/
structure Answers {α : Type} (within : Prop) (answer : α) (result : Except Stop α) : Prop where
  reads : within → result = .ok answer
  refused : ¬ within → Refused result

theorem expression_followed {used rest : List Token} {e : ParsedExpr} {n : Nat}
    (phrase : Derives .or used e n) (stops : Stops 0 rest) :
    ∃ shorter, Answers (Within nestingLimit n e.height) ⟨⟨e, e.height⟩, rest, shorter⟩
      (expression (used ++ rest)) := by
  obtain ⟨t, us, begins, -⟩ := phrase.opens
  have shorter : rest.length < (used ++ rest).length := by
    rw [begins, List.length_append, List.length_cons]
    omega
  have followed : Followed .or nestingLimit 0 n (used ++ rest) e rest :=
    phrase.followed rfl (Nat.zero_le _) (stops.mono (Nat.zero_le _))
  refine ⟨shorter, fun within => ?_, followed.refused⟩
  obtain ⟨_, read⟩ := followed.finish within stops
  exact read

def Closes (rest : List Token) : Prop := ∀ t ∈ rest.head?, t.kind = .comma ∨ t.kind = .eof

theorem Closes.stops {rest : List Token} (closes : Closes rest) : Stops 0 rest := by
  cases rest with
  | nil => trivial
  | cons t rest => exact .of_kind fun op => by obtain kind | kind := closes t rfl <;> simp [kind]

def FollowsItems (clause : Clause)
    (item : (ts : List Token) → Except Stop (Reading ParsedExpr ts)) : Prop :=
  ∀ used e n rest input, DerivesItem clause used e n → Closes rest → input = used ++ rest →
    ∃ shorter, Answers (Within nestingLimit n e.bare.height) ⟨e, rest, shorter⟩ (item input)

theorem computeItem_follows : FollowsItems .compute computeItem := by
  intro used e n rest input derives closes whole
  cases derives with
  | @named ts t name e n phrase joins names =>
    have stops : Stops 0 (t :: name :: rest) := .of_kind (by simp [joins])
    obtain ⟨shorter, answers⟩ := expression_followed phrase stops
    simp only [List.append_assoc, List.cons_append, List.nil_append] at whole
    subst whole
    refine ⟨Nat.lt_of_succ_lt (Nat.lt_of_succ_lt shorter), fun within => ?_, fun outside => ?_⟩
    · rw [computeItem, answers.reads within]
      simp [joins, names]
    · obtain ⟨position, built, refused⟩ := answers.refused outside
      exact ⟨position, built, by rw [computeItem, refused]⟩

theorem orderItem_follows : FollowsItems .orderBy orderItem := by
  intro used e n rest input derives closes whole
  cases derives with
  | @ordered ts e n phrase =>
    subst whole
    obtain ⟨shorter, answers⟩ := expression_followed phrase closes.stops
    refine ⟨shorter, fun within => ?_, fun outside => ?_⟩
    · rw [orderItem, answers.reads within]
      cases rest with
      | nil => rfl
      | cons t rest =>
        have other : t.kind ≠ .identifier := by obtain kind | kind := closes t rfl <;> simp [kind]
        simp [other]
    · obtain ⟨position, built, refused⟩ := answers.refused outside
      exact ⟨position, built, by rw [orderItem, refused]⟩
  | @directed ts t e descending n phrase word direction =>
    have stops : Stops 0 (t :: rest) := .of_kind (by simp [word])
    obtain ⟨shorter, answers⟩ := expression_followed phrase stops
    simp only [List.append_assoc, List.cons_append, List.nil_append] at whole
    subst whole
    refine ⟨Nat.lt_of_succ_lt shorter, fun within => ?_, fun outside => ?_⟩
    · rw [orderItem, answers.reads within]
      simp [word, direction]
    · obtain ⟨position, built, refused⟩ := answers.refused outside
      exact ⟨position, built, by rw [orderItem, refused]⟩

def WithinAll (n : Nat) (es : List ParsedExpr) : Prop :=
  n ≤ nestingLimit ∧ ∀ e ∈ es, e.bare.height ≤ nestingLimit

theorem items_follow {clause : Clause}
    {item : (ts : List Token) → Except Stop (Reading ParsedExpr ts)}
    (follows : FollowsItems clause item) {used : List Token} {es : List ParsedExpr} {n : Nat}
    (series : Series (DerivesItem clause) used es n) {last : Token} (ends : last.kind = .eof) :
    Answers (WithinAll n es) es (items item (used ++ [last])) := by
  induction series with
  | @one ts e n derives =>
    obtain ⟨shorter, answers⟩ := follows ts e n [last] _ derives (by simp [Closes, ends]) rfl
    refine ⟨fun within => ?_, fun outside => ?_⟩
    · rw [items, answers.reads ⟨within.1, within.2 e List.mem_cons_self⟩]
      simp [ends]
    · obtain ⟨position, built, refused⟩ := answers.refused fun within =>
        outside ⟨within.1, by simpa using within.2⟩
      exact ⟨position, built, by rw [items, refused]⟩
  | @more t ts us e es n m comma derives _ ih =>
    rw [List.append_assoc]
    obtain ⟨shorter, answers⟩ :=
      follows ts e n (t :: (us ++ [last])) _ derives (by simp [Closes, comma]) rfl
    refine ⟨fun within => ?_, fun outside => ?_⟩
    · obtain ⟨deep, low⟩ := within
      have first := answers.reads ⟨by omega, low e List.mem_cons_self⟩
      have rest := ih.reads ⟨by omega, fun f member => low f (List.mem_cons_of_mem _ member)⟩
      rw [items, List.cons_append, first]
      simp [comma, rest]
    · by_cases within : Within nestingLimit n e.bare.height
      · obtain ⟨position, built, refused⟩ := ih.refused fun others => outside
          ⟨Nat.max_le.2 ⟨within.1, others.1⟩, List.forall_mem_cons.2 ⟨within.2, others.2⟩⟩
        refine ⟨position, e :: built, ?_⟩
        rw [items, List.cons_append, answers.reads within]
        simp [comma, refused, Stop.after]
      · obtain ⟨position, built, refused⟩ := answers.refused within
        exact ⟨position, built, by rw [items, List.cons_append, refused]⟩

theorem DerivesItem.opens {clause : Clause} {ts : List Token} {e : ParsedExpr} {n : Nat}
    (derives : DerivesItem clause ts e n) : ∃ t us, ts = t :: us ∧ Opens t := by
  cases derives with
  | condition phrase => exact phrase.opens
  | named phrase _ _ | directed phrase _ _ =>
    obtain ⟨t, us, rfl, opens⟩ := phrase.opens
    exact ⟨t, _, rfl, opens⟩
  | ordered phrase => exact phrase.opens

/-- The parser follows the grammar of the clause up to the end marker. -/
theorem clause_follows {clause : Clause} {used : List Token} {es : List ParsedExpr} {n : Nat}
    (series : Series (DerivesItem clause) used es n) (single : clause = .filter → es.length = 1)
    {last : Token} (ends : last.kind = .eof) :
    Answers (WithinAll n es) es (Parser.clause clause (used ++ [last])) := by
  have visible : isBlank (used ++ [last]) = false := by
    have begins : ∃ t us, used = t :: us ∧ Opens t := by
      cases series with
      | one derives => exact derives.opens
      | more _ derives _ =>
        obtain ⟨t, us, rfl, opens⟩ := derives.opens
        exact ⟨t, _, rfl, opens⟩
    obtain ⟨t, us, rfl, opens⟩ := begins
    simpa [isBlank] using opens.2
  cases clause with
  | filter =>
    cases series with
    | more _ _ others => cases others <;> cases single rfl
    | @one _ e _ derives =>
      cases derives with
      | condition phrase =>
        obtain ⟨reads, refused⟩ := filter_followed ⟨used, last, rfl, ends, phrase⟩
        have same : WithinAll n [e] ↔ Within nestingLimit n e.height := by
          simp [WithinAll, Within, phrase.bare_eq]
        refine ⟨fun within => ?_, fun outside => ?_⟩
        · simp [Parser.clause, reads (same.1 within), Except.map]
        · obtain ⟨position, built, stopped⟩ := refused fun within => outside (same.2 within)
          exact ⟨position, built, by simp [Parser.clause, stopped, Except.map]⟩
  | compute =>
    have answers := items_follow computeItem_follows series ends
    simpa [Parser.clause, compute, visible] using answers
  | orderBy =>
    have answers := items_follow orderItem_follows series ends
    simpa [Parser.clause, orderBy, visible] using answers

end Grammar

end ClauseSql
