import ClauseSql.Proofs.Lexing
import ClauseSql.Proofs.ParserCompleteness
import ClauseSql.Proofs.ParserSteps
import Mathlib.Algebra.Order.Ring.Nat
import Mathlib.Data.List.Chain

/-! The parser reads nothing but what the grammar derives, and so accepts the grammar exactly, up to
its two limits. The one thing that the parser takes beyond the grammar is a `not` right behind a
comparison or an arithmetic operator: such token lists are set aside. -/
namespace ClauseSql.Grammar

open ClauseSql.Parser

def joinsValues : TokenKind → Bool
  | .operator (.comparison _) => true
  | .operator (.arithmetic _) => true
  | _ => false

/-- No `not` stands right behind a comparison or an arithmetic operator. -/
def Orderly (ts : List Token) : Prop := ts.IsChain fun t u => joinsValues t.kind → u.kind ≠ .not

instance (ts : List Token) : Decidable (Orderly ts) :=
  inferInstanceAs (Decidable (ts.IsChain fun t u => joinsValues t.kind → u.kind ≠ .not))

theorem Orderly.rest {ts us : List Token} (orderly : Orderly (ts ++ us)) : Orderly us :=
  (List.isChain_append.mp orderly).2.1

theorem Orderly.tail {t : Token} {ts : List Token} (orderly : Orderly (t :: ts)) : Orderly ts :=
  (List.isChain_cons.mp orderly).2

theorem joinsValues_of_power {op : BinaryOperator} (strong : 30 < (Rank.of op).power + 1) :
    joinsValues (.operator op) := by
  rcases op with _ | (_ | _) | (_ | _ | _ | _ | _) <;> simp_all [Rank.of, Rank.power, joinsValues]

def Rank.at (power : Nat) : Rank :=
  if power ≤ 10 then or else if power ≤ 20 then and else if power ≤ 30 then unary
  else if power ≤ 40 then comparison else if power ≤ 50 then sum else if power ≤ 60 then product
  else primary

theorem Rank.at_le {rank : Rank} {power : Nat} (loose : power ≤ rank.power) :
    (Rank.at power).power ≤ rank.power := by
  unfold Rank.at
  cases rank <;> simp only [Rank.power] at loose ⊢ <;> split_ifs <;> simp

theorem Rank.at_right (op : BinaryOperator) : Rank.at ((Rank.of op).power + 1) = Rank.right op := by
  rcases op with _ | (_ | _) | (_ | _ | _ | _ | _) <;> rfl

theorem Rank.of_lt_primary (op : BinaryOperator) : (Rank.of op).power < primary.power := by
  rcases op with _ | (_ | _) | (_ | _ | _ | _ | _) <;> simp [of, power]

theorem Rank.next_le {a b : Rank} (weaker : a.power ≤ b.power) (other : a ≠ b) :
    a.power < a.next.power ∧ a.next.power ≤ b.power := by
  cases a <;> cases b <;> simp_all [power, next]

theorem Derives.relax {a b : Rank} {ts : List Token} {e : ParsedExpr} {n : Nat}
    (weaker : a.power ≤ b.power) (phrase : Derives b ts e n) : Derives a ts e n := by
  by_cases same : a = b
  · exact same ▸ phrase
  · have step := Rank.next_le weaker same
    exact .stronger (phrase.relax step.2)
termination_by b.power - a.power
decreasing_by omega

def Sound (depth power : Nat) {ts : List Token} (r : Reading Sized ts) : Prop :=
  ∃ used n, ts = used ++ r.rest ∧ Derives (.at power) used r.value.expr n ∧
    Within depth n r.value.height ∧ r.value.height = r.value.expr.height ∧ Stops power r.rest

/-- A rule that reads phrases only. Where a value is expected, the tokens must not begin with
`not`. -/
def SoundRule (depth : Nat) (rule : Rule) : Prop :=
  ∀ power ts r, rule power ts = .ok r → Orderly ts → power ≤ Rank.primary.power →
    (30 < power → ∀ t ∈ ts.head?, t.kind ≠ .not) → Sound depth power r

theorem operators_ok {rule : Rule} {power : Nat} {compared : Bool} {input : List Token}
    {left result : Reading Sized input} (done : operators rule power compared left = .ok result) :
    (result = left ∧ Stops power left.rest) ∨
    ∃ t ts op, ∃ right : Reading Sized ts, ∃ less,
      left.rest = t :: ts ∧ t.kind = .operator op ∧ power ≤ (Rank.of op).power ∧
      (op.isComparison → compared = false) ∧ rule ((Rank.of op).power + 1) ts = .ok right ∧
      max left.value.height right.value.height + 1 ≤ nestingLimit ∧
      operators rule power (compared || op.isComparison)
        ⟨⟨.binary op left.value.expr right.value.expr,
          max left.value.height right.value.height + 1⟩, right.rest, less⟩ = .ok result := by
  unfold operators at done
  split at done
  · next follows =>
    cases done
    exact .inl ⟨rfl, by rw [follows]; trivial⟩
  · next t ts follows =>
    split at done
    · next op kind =>
      simp only [powers_fst, powers_snd_rank] at done
      split at done
      · next weak =>
        cases done
        refine .inl ⟨rfl, ?_⟩
        rw [follows]
        intro other same
        rw [kind] at same
        cases same
        exact weak
      · next strong =>
        split at done
        · cases done
        · next single =>
          split at done
          · cases done
          · next right read =>
            split at done
            · cases done
            · next low =>
              refine .inr ⟨t, ts, op, right, _, follows, kind, Nat.not_lt.mp strong, ?_, read,
                Nat.not_lt.mp low, done⟩
              intro comparison
              simpa [comparison] using single
    · next other =>
      cases done
      refine .inl ⟨rfl, ?_⟩
      rw [follows]
      exact .of_kind other

/-- The loop keeps its left operand a phrase of a rank that the frame allows, and what follows never
binds more strongly than that rank. -/
theorem operators_sound {rule : Rule} {depth power n : Nat} {compared : Bool} {rank : Rank}
    {input used : List Token} {left result : Reading Sized input} (sound : SoundRule depth rule)
    (done : operators rule power compared left = .ok result) (whole : input = used ++ left.rest)
    (phrase : Derives rank used left.value.expr n) (within : Within (depth + 1) n left.value.height)
    (height : left.value.height = left.value.expr.height) (loose : power ≤ rank.power)
    (stops : Stops (rank.power + 1) left.rest) (flag : rank = .comparison → compared = true)
    (orderly : Orderly left.rest) : Sound (depth + 1) power result := by
  obtain ⟨rfl, ends⟩ | ⟨t, ts, op, right, less, follows, kind, strong, single, read, low, more⟩ :=
    operators_ok done
  · exact ⟨used, n, whole, phrase.relax (Rank.at_le loose), within, height, ends⟩
  · rw [follows] at orderly stops whole
    have weaker : (Rank.of op).power ≤ rank.power := Nat.le_of_lt_succ (stops op kind)
    have value : 30 < (Rank.of op).power + 1 → ∀ u ∈ ts.head?, u.kind ≠ .not :=
      fun above u first =>
        (List.isChain_cons.mp orderly).1 u first (kind ▸ joinsValues_of_power above)
    obtain ⟨taken, m, split, operand, inside, same, ends⟩ :=
      sound _ _ _ read orderly.tail (Rank.of_lt_primary op) value
    rw [Rank.at_right] at operand
    have joined : (Rank.left op).power ≤ rank.power := by
      cases op with
      | comparison c =>
        have apart : rank ≠ .comparison := fun equal => by
          simpa [single rfl] using flag equal
        have lower := Rank.next_le weaker (Ne.symm apart)
        exact lower.2
      | connective c => exact weaker
      | arithmetic a => exact weaker
    have chain := Derives.binary kind (phrase.relax joined) operand
    refine operators_sound sound more (by simp [whole, split]) chain ?_ ?_ strong ends ?_ ?_
    · exact ⟨by have := within.1; have := inside.1; omega, low⟩
    · simp [Expr.height, height, same]
    · intro equal
      cases op with
      | comparison c => simp [BinaryOperator.isComparison]
      | connective c => cases c <;> cases equal
      | arithmetic a => cases a <;> cases equal
    · rw [split] at orderly
      exact orderly.tail.rest
termination_by left.rest.length
decreasing_by
  rw [follows]
  exact Nat.lt_succ_of_lt right.shorter

theorem SoundRule.condition {depth power : Nat} {rule : Rule} (sound : SoundRule depth rule)
    {ts : List Token} {r : Reading Sized ts} (read : rule power ts = .ok r) (orderly : Orderly ts)
    (weak : power ≤ 30) : Sound depth power r :=
  sound power ts r read orderly (Nat.le_trans weak (by decide)) fun strong => by omega

theorem arguments_sound {rule : Rule} {depth openedAt : Nat} {ts : List Token}
    {r : Reading (List ParsedExpr × Nat) ts} (sound : SoundRule depth rule)
    (done : arguments rule openedAt ts = .ok r) (orderly : Orderly ts) :
    ∃ used n closing, ts = used ++ closing :: r.rest ∧ closing.kind = .closeParen ∧
      DerivesAll used r.value.1 n ∧ n ≤ depth ∧ r.value.2 = Expr.heightOfAll r.value.1 := by
  obtain ⟨arg, t, rest, read, follows, last⟩ := arguments_ok done
  obtain ⟨used, n, whole, phrase, within, height, -⟩ := sound.condition read orderly (by omega)
  rw [follows] at whole
  have less : rest.length < ts.length := by
    have shorter := arg.shorter
    rw [follows] at shorter
    exact Nat.lt_of_succ_lt shorter
  obtain ⟨closes, value, same⟩ | ⟨comma, more, others, value, same⟩ := last
  · rw [value, same]
    exact ⟨used, n, t, whole, closes, .one phrase, within.1, by simp [Expr.heightOfAll, height]⟩
  · have later : Orderly rest := by
      rw [whole] at orderly
      exact orderly.rest.tail
    obtain ⟨taken, m, closing, split, closes, phrases, deep, highest⟩ :=
      arguments_sound sound others later
    rw [value, same]
    refine ⟨used ++ t :: taken, max n m, closing, ?_, closes, .more comma phrase phrases,
      Nat.max_le.mpr ⟨within.1, deep⟩, ?_⟩
    · simp [whole, split]
    · simp [Expr.heightOfAll, height, highest]
termination_by ts.length

def SoundPrimary (depth : Nat) (first : Token) {ts : List Token} (r : Reading Sized ts) : Prop :=
  ∃ rank used n, ts = used ++ r.rest ∧ Derives rank used r.value.expr n ∧
    Within depth n r.value.height ∧ r.value.height = r.value.expr.height ∧
    Stops (rank.power + 1) r.rest ∧ (rank = .primary ∨ rank = .unary ∧ first.kind = .not)

theorem stops_primary (ts : List Token) : Stops (Rank.primary.power + 1) ts := by
  cases ts with
  | nil => trivial
  | cons t ts =>
    exact fun op _ => Nat.lt_succ_of_lt (Rank.of_lt_primary op)

theorem call_sound {rule : Rule} {depth : Nat} {name : Token} {ts : List Token}
    {r : Reading Sized (name :: ts)} (sound : SoundRule depth rule) (calls : name.kind = .functionName)
    (done : call rule name ts = .ok r) (orderly : Orderly ts) :
    SoundPrimary (depth + 1) name r := by
  obtain ⟨opening, t, rest, rfl, opens, inside⟩ := call_ok done
  obtain ⟨closes, value, same⟩ | ⟨args, read, low, value, same⟩ := inside
  · refine ⟨.primary, [name, opening, t], 1, by simp [same], ?_, ?_, ?_, stops_primary _, .inl rfl⟩
    · rw [value]
      exact .emptyCall calls opens closes
    · rw [value]
      exact ⟨by omega, by simp [nestingLimit]⟩
    · simp [value, Expr.height, Expr.heightOfAll]
  · obtain ⟨used, n, closing, whole, closes, phrases, deep, highest⟩ :=
      arguments_sound sound read orderly.tail
    refine ⟨.primary, name :: opening :: (used ++ [closing]), n + 1, by simp [same, whole], ?_, ?_,
      ?_, stops_primary _, .inl rfl⟩
    · rw [value]
      exact .call calls opens closes phrases
    · rw [value]
      exact ⟨by omega, low⟩
    · simp [value, Expr.height, highest]

theorem parenthesized_sound {rule : Rule} {depth : Nat} {opening : Token} {ts : List Token}
    {r : Reading Sized (opening :: ts)} (sound : SoundRule depth rule)
    (opens : opening.kind = .openParen) (done : parenthesized rule opening ts = .ok r)
    (orderly : Orderly ts) : SoundPrimary (depth + 1) opening r := by
  obtain ⟨inner, t, read, follows, closes, value⟩ := parenthesized_ok done
  obtain ⟨used, n, whole, phrase, within, height, -⟩ := sound.condition read orderly (by omega)
  rw [follows] at whole
  rw [← value] at phrase within height
  refine ⟨.primary, opening :: (used ++ [t]), n + 1, by simp [whole], .group opens closes phrase,
    ⟨Nat.succ_le_succ within.1, within.2⟩, height, stops_primary _, .inl rfl⟩

theorem not_sound {rule : Rule} {depth : Nat} {first : Token} {ts : List Token}
    {operand : Reading Sized ts} {r : Reading Sized (first :: ts)} (sound : SoundRule depth rule)
    (kind : first.kind = .not) (read : rule BinaryOperator.notPower ts = .ok operand)
    (done : bounded first.start [operand.value.expr]
      ((operand.map fun s => ⟨.not s.expr, s.height + 1⟩).behind first) = .ok r)
    (orderly : Orderly ts) : SoundPrimary (depth + 1) first r := by
  obtain ⟨rfl, low⟩ := bounded_ok done
  obtain ⟨used, n, whole, phrase, within, height, stops⟩ :=
    sound.condition read orderly (Nat.le_refl 30)
  refine ⟨.unary, first :: used, n + 1, ?_, .not kind phrase, ⟨Nat.succ_le_succ within.1, low⟩, ?_,
    stops.mono (Nat.le_succ 30), .inr ⟨rfl, kind⟩⟩
  · exact congrArg (first :: ·) whole
  · exact congrArg (· + 1) height

theorem primary_sound {rule : Rule} {depth : Nat} {first : Token} {ts : List Token}
    {r : Reading Sized (first :: ts)} (sound : SoundRule depth rule)
    (done : primary rule first ts = .ok r) (orderly : Orderly ts) :
    SoundPrimary (depth + 1) first r := by
  have leaf {e : ParsedExpr} (low : e.height = 1) (phrase : Derives .primary [first] e 1) :
      SoundPrimary (depth + 1) first (⟨⟨e, 1⟩, ts, Nat.lt_succ_self _⟩ : Reading Sized (first :: ts)) :=
    ⟨.primary, [first], 1, rfl, phrase, ⟨by omega, by simp [nestingLimit]⟩, low.symm,
      stops_primary _, .inl rfl⟩
  unfold primary at done
  split at done
  · next kind is => cases done; exact leaf rfl (.literal is)
  · next is => cases done; exact leaf rfl (.path (.inl is))
  · next is => cases done; exact leaf rfl (.path (.inr is))
  · next is => exact call_sound sound is done orderly
  · next is => exact parenthesized_sound sound is done orderly
  · next is =>
    split at done
    · cases done
    · next operand read => exact not_sound sound is read done orderly
  · cases done

theorem nested_sound (depth : Nat) : SoundRule depth (nested depth) := by
  induction depth with
  | zero =>
    intro power ts r done
    cases ts <;> cases done
  | succ depth ih =>
    intro power ts r done orderly bound value
    cases ts with
    | nil => cases done
    | cons first rest =>
      rw [nested_succ] at done
      split at done
      · cases done
      · next left read =>
        obtain ⟨rank, used, n, whole, phrase, within, height, stops, shape⟩ :=
          primary_sound ih read orderly.tail
        have loose : power ≤ rank.power := by
          rcases shape with rfl | ⟨rfl, negated⟩
          · exact bound
          · by_contra strong
            exact value (Nat.not_le.mp strong) first rfl negated
        have plain : rank = .comparison → false = true := by
          rcases shape with rfl | ⟨rfl, -⟩ <;> simp
        rw [whole] at orderly
        exact operators_sound ih done whole phrase within height loose stops plain orderly.rest

def DerivesWhole (ts : List Token) (e : ParsedExpr) (n : Nat) : Prop :=
  ∃ used last, ts = used ++ [last] ∧ last.kind = .eof ∧ Derives .or used e n

theorem rest_endMarked {body used rest : List Token} {t last : Token}
    (split : body ++ [last] = used ++ t :: rest) (marker : t.kind = .eof)
    (proper : ∀ t ∈ body, t.kind ≠ .eof) : rest = [] := by
  obtain rfl | ⟨front, u, rfl⟩ := rest.eq_nil_or_concat
  · rfl
  · have same : body ++ [last] = (used ++ t :: front) ++ [u] := by simpa using split
    have inner : body = used ++ t :: front := (List.append_inj' same rfl).1
    exact absurd marker (proper t (by simp [inner]))

theorem filter_sound {ts : List Token} {e : ParsedExpr} (orderly : Orderly ts)
    (marked : ∃ body last, ts = body ++ [last] ∧ last.kind = .eof ∧ ∀ t ∈ body, t.kind ≠ .eof)
    (done : Parser.filter ts = .ok e) : ∃ n, DerivesWhole ts e n ∧ Within nestingLimit n e.height := by
  have phrase {r : Reading Sized ts} (read : expression ts = .ok r) : Sound nestingLimit 0 r :=
    nested_sound nestingLimit 0 ts r read orderly (Nat.zero_le _) (by omega)
  obtain ⟨body, last, whole, ends, proper⟩ := marked
  obtain ⟨root, read, rfl, marker⟩ := filter_ok done
  obtain ⟨used, n, split, derives, within, height, -⟩ := phrase read
  cases follows : root.rest with
  | nil =>
    -- No phrase reads the end marker, so it is left over.
    rw [follows, List.append_nil] at split
    have member : last ∈ used := by simp [← split, whole]
    exact absurd ends (derives.proper last member)
  | cons t rest =>
    rw [follows] at split marker
    obtain rfl := rest_endMarked (whole.symm.trans split) (marker t rfl) proper
    exact ⟨n, ⟨used, t, split, marker t rfl, derives⟩, height ▸ within⟩

theorem filter_followed {ts : List Token} {e : ParsedExpr} {n : Nat}
    (derivation : DerivesWhole ts e n) :
    (Within nestingLimit n e.height → Parser.filter ts = .ok e) ∧
      (¬ Within nestingLimit n e.height → Refused (Parser.filter ts)) := by
  obtain ⟨used, last, whole, ends, phrase⟩ := derivation
  have stops {power : Nat} : Stops power [last] := .of_kind (by simp [ends])
  have followed : Followed .or nestingLimit 0 n ts e [last] :=
    phrase.followed whole (Nat.zero_le _) stops
  have visible : isBlank ts = false := by
    obtain ⟨t, us, rfl, opens⟩ := phrase.opens
    simpa [whole, isBlank] using opens.2
  constructor
  · intro within
    obtain ⟨shorter, read⟩ := followed.finish within stops
    have same : expression ts = .ok ⟨⟨e, e.height⟩, [last], shorter⟩ := read
    simp [Parser.filter, visible, same, ends]
  · intro outside
    obtain ⟨position, built, refused⟩ := followed.refused outside
    have same : expression ts = .error ⟨.tooDeep position, built⟩ := refused
    exact ⟨position, built, by simp [Parser.filter, visible, same]⟩

/-- The filter parser accepts the phrases of the grammar that keep to both limits, with the
expressions that the grammar gives them. It fails on everything else, and where a derivation exists
it says that the clause is too deep. -/
theorem filter_accepts_grammar (source : String) (ts : List Token)
    (lexed : Token.tokenize source = .ok ts) (orderly : Orderly ts) :
    (∀ e, Parser.filter ts = .ok e ↔ ∃ n, DerivesWhole ts e n ∧ n ≤ 128 ∧ e.height ≤ 128) ∧
    ((¬ ∃ e n, DerivesWhole ts e n ∧ n ≤ 128 ∧ e.height ≤ 128) →
      ∃ stop, Parser.filter ts = .error stop) ∧
    (∀ e n, DerivesWhole ts e n → ¬ (n ≤ 128 ∧ e.height ≤ 128) →
      ∃ stop position, Parser.filter ts = .error stop ∧ stop.cause = .tooDeep position) := by
  have marked := Lexing.tokenize_endMarked lexed
  refine ⟨fun e => ⟨filter_sound orderly marked, ?_⟩, ?_, ?_⟩
  · rintro ⟨n, derivation, within⟩
    exact (filter_followed derivation).1 within
  · intro none
    cases done : Parser.filter ts with
    | error stop => exact ⟨stop, rfl⟩
    | ok e => exact absurd ⟨e, filter_sound orderly marked done⟩ none
  · intro e n derivation outside
    obtain ⟨position, built, refused⟩ := (filter_followed derivation).2 outside
    exact ⟨_, position, refused, rfl⟩

theorem filter_accepts_negated_group : ∃ ts,
    Token.tokenize "not (a or b) and c" = .ok ts ∧ Orderly ts ∧
    ∃ n, DerivesWhole ts
        (.binary (.connective .and)
          (.not (.binary (.connective .or) (.path ⟨5, 6⟩) (.path ⟨10, 11⟩))) (.path ⟨17, 18⟩)) n ∧
      n ≤ 128 := by
  have lexed : Token.tokenize "not (a or b) and c" = .ok
      [⟨.not, 0, ['n', 'o', 't']⟩, ⟨.openParen, 4, ['(']⟩, ⟨.identifier, 5, ['a']⟩,
        ⟨.operator (.connective .or), 7, ['o', 'r']⟩, ⟨.identifier, 10, ['b']⟩,
        ⟨.closeParen, 11, [')']⟩, ⟨.operator (.connective .and), 13, ['a', 'n', 'd']⟩,
        ⟨.identifier, 17, ['c']⟩, ⟨.eof, 18, []⟩] := by decide +kernel
  refine ⟨_, lexed, by decide, ?_⟩
  obtain ⟨n, derivation, deep, -⟩ :=
    ((filter_accepts_grammar _ _ lexed (by decide)).1 (.binary (.connective .and)
      (.not (.binary (.connective .or) (.path ⟨5, 6⟩) (.path ⟨10, 11⟩))) (.path ⟨17, 18⟩))).mp
      (by with_unfolding_all rfl)
  exact ⟨n, derivation, deep⟩

end ClauseSql.Grammar
