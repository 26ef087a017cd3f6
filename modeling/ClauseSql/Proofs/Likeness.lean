import ClauseSql.Expr.Parser
import ClauseSql.Proofs.Outcome
import Mathlib.Data.List.Forall2

/-! Two clauses side by side. Tokens are alike if they have the same kind and their texts correspond,
each kind of text in its own way. The parser looks at nothing else, so on alike tokens it comes to
alike expressions or stops both times, and at the same place if the tokens stand at the same places. -/
namespace ClauseSql

open ClauseSql.Parser Outcome

/-- How the texts of two expressions correspond: those of literals, those of paths and aliases, and
those of function names. -/
structure Likeness (σ τ : Type) where
  literal : LiteralKind → σ → τ → Prop
  name : σ → τ → Prop
  function : σ → τ → Prop

mutual
inductive Expr.Alike {σ τ β γ : Type} (like : Likeness σ τ) : Expr σ β → Expr τ γ → Prop
  | literal {kind : LiteralKind} {s : σ} {t : τ} :
      like.literal kind s t → Alike like (.literal kind s) (.literal kind t)
  | path {s : σ} {t : τ} : like.name s t → Alike like (.path s) (.path t)
  | not {a : Expr σ β} {b : Expr τ γ} : Alike like a b → Alike like (.not a) (.not b)
  | binary {op : BinaryOperator} {a c : Expr σ β} {b d : Expr τ γ} :
      Alike like a b → Alike like c d → Alike like (.binary op a c) (.binary op b d)
  | call {s : σ} {t : τ} {as : List (Expr σ β)} {bs : List (Expr τ γ)} :
      like.function s t → AlikeAll like as bs → Alike like (.call s as) (.call t bs)
  | named {s : σ} {t : τ} {a : Expr σ β} {b : Expr τ γ} :
      Alike like a b → like.name s t → Alike like (.named a s) (.named b t)
  | ordered {descending : Bool} {a : Expr σ β} {b : Expr τ γ} :
      Alike like a b → Alike like (.ordered a descending) (.ordered b descending)
  | broken {x : β} {y : γ} : Alike like (.broken x) (.broken y)
  | brokenCall {s : σ} {t : τ} {x : β} {y : γ} :
      like.function s t → Alike like (.brokenCall s x) (.brokenCall t y)
inductive Expr.AlikeAll {σ τ β γ : Type} (like : Likeness σ τ) :
    List (Expr σ β) → List (Expr τ γ) → Prop
  | nil : AlikeAll like [] []
  | cons {a : Expr σ β} {b : Expr τ γ} {as : List (Expr σ β)} {bs : List (Expr τ γ)} :
      Expr.Alike like a b → AlikeAll like as bs → AlikeAll like (a :: as) (b :: bs)
end

namespace Likeness

variable (like : Likeness Span Span)

def ofKind (kind : TokenKind) (s t : Span) : Prop :=
  match kind with
  | .literal kind => like.literal kind s t
  | .identifier => like.name s t
  | .path => like.name s t
  | .functionName => like.function s t
  | _ => True

/-- An identifier may be a direction, so that much of it has to be the same too. -/
structure Tokens (t u : Token) : Prop where
  kind : t.kind = u.kind
  text : like.ofKind t.kind t.span u.span
  direction : t.kind = .identifier → direction? t.lexeme = direction? u.lexeme

structure TokensAt (placed : Prop) (t u : Token) : Prop extends like.Tokens t u where
  span : placed → t.span = u.span

structure OfSized (s t : Sized) : Prop where
  expr : Expr.Alike like s.expr t.expr
  height : s.height = t.height

structure Readings (placed : Prop) {α β : Type} (related : α → β → Prop) {ts us : List Token}
    (r : Reading α ts) (q : Reading β us) : Prop where
  value : related r.value q.value
  rest : List.Forall₂ (like.TokensAt placed) r.rest q.rest

def StopsAt (placed : Prop) (s t : Stop) : Prop := placed → s.cause.position = t.cause.position

/-- A rule that does not tell alike tokens apart. -/
def Respects (placed : Prop) (rule : Rule) : Prop :=
  ∀ power ts us, List.Forall₂ (like.TokensAt placed) ts us →
    InStep (StopsAt placed) (like.Readings placed like.OfSized) (rule power ts) (rule power us)

variable {like} {placed : Prop}

theorem TokensAt.start {t u : Token} (alike : like.TokensAt placed t u) (here : placed) :
    t.start = u.start :=
  congrArg Span.start (alike.span here)

theorem TokensAt.stop {t u : Token} (alike : like.TokensAt placed t u) (here : placed) :
    t.stop = u.stop :=
  congrArg Span.stop (alike.span here)

theorem TokensAt.unexpected {t u : Token} (alike : like.TokensAt placed t u)
    {as bs : List ParsedExpr} :
    StopsAt placed ⟨.unexpected t, as⟩ ⟨.unexpected u, bs⟩ := by
  have position (t : Token) : (ParseError.unexpected t).position = t.start := by
    unfold ParseError.unexpected
    split <;> rfl
  intro here
  simp only [position, alike.start here]

theorem bounded_inStep {ts us : List Token} {p q : Nat} {as bs : List ParsedExpr}
    {r : Reading Sized ts} {s : Reading Sized us} (place : placed → p = q)
    (alike : like.Readings placed like.OfSized r s) :
    InStep (StopsAt placed) (like.Readings placed like.OfSized) (bounded p as r) (bounded q bs s) := by
  unfold bounded
  rw [alike.value.height]
  split
  · exact .error place
  · exact .ok alike

structure OfArguments (like : Likeness Span Span) (a b : List ParsedExpr × Nat) : Prop where
  exprs : Expr.AlikeAll like a.1 b.1
  height : a.2 = b.2

theorem arguments_inStep {rule : Rule} (respects : like.Respects placed rule) {p q : Nat}
    (place : placed → p = q) {ts us : List Token}
    (alike : List.Forall₂ (like.TokensAt placed) ts us) :
    InStep (StopsAt placed) (like.Readings placed like.OfArguments) (arguments rule p ts)
      (arguments rule q us) := by
  rw [arguments, arguments]
  have same := respects 0 ts us alike
  generalize rule 0 ts = left at same ⊢
  generalize rule 0 us = right at same ⊢
  cases same with
  | error same => exact .error same
  | @ok r s same =>
    obtain ⟨a, as, shorter⟩ := r
    obtain ⟨b, bs, less⟩ := s
    obtain ⟨value, rest⟩ := same
    cases rest with
    | nil => exact .error place
    | @cons t u ts us first others =>
      simp only [first.kind]
      split
      · exact .ok ⟨⟨.cons value.expr .nil, value.height⟩, others⟩
      · split
        · exact .error place
        · split
          · have more := arguments_inStep respects place others
            generalize arguments rule p ts = left at more ⊢
            generalize arguments rule q us = right at more ⊢
            cases more with
            | error same => exact .error same
            | ok more =>
              refine .ok ⟨⟨.cons value.expr more.value.exprs, ?_⟩, more.rest⟩
              exact congrArg₂ max value.height more.value.height
          · exact .error first.unexpected
termination_by ts.length
decreasing_by exact Nat.lt_of_succ_lt shorter

theorem call_inStep {rule : Rule} (respects : like.Respects placed rule) {name other : Token}
    {ts us : List Token} (called : like.TokensAt placed name other)
    (text : like.function name.span other.span)
    (alike : List.Forall₂ (like.TokensAt placed) ts us) :
    InStep (StopsAt placed) (like.Readings placed like.OfSized) (call rule name ts)
      (call rule other us) := by
  unfold call
  cases alike with
  | nil => exact .error called.stop
  | @cons o p ts us opening more =>
    cases more with
    | nil => exact .error called.stop
    | @cons t u ts us first others =>
      simp only [opening.kind, first.kind]
      split
      · split
        · exact .ok ⟨⟨.call text .nil, rfl⟩, others⟩
        · split
          · exact .error opening.start
          · have args := arguments_inStep respects opening.start (.cons first others)
            generalize arguments rule o.start (t :: ts) = left at args ⊢
            generalize arguments rule p.start (u :: us) = right at args ⊢
            cases args with
            | error same => exact .error same
            | ok args =>
              refine bounded_inStep called.start ⟨⟨.call text args.value.exprs, ?_⟩, args.rest⟩
              simp only [args.value.height]
      · exact .error opening.unexpected

theorem parenthesized_inStep {rule : Rule} (respects : like.Respects placed rule)
    {opening other : Token} {ts us : List Token} (opened : like.TokensAt placed opening other)
    (alike : List.Forall₂ (like.TokensAt placed) ts us) :
    InStep (StopsAt placed) (like.Readings placed like.OfSized) (parenthesized rule opening ts)
      (parenthesized rule other us) := by
  unfold parenthesized
  have same := respects 0 ts us alike
  generalize rule 0 ts = left at same ⊢
  generalize rule 0 us = right at same ⊢
  cases same with
  | error same => exact .error same
  | @ok r s same =>
    obtain ⟨a, as, shorter⟩ := r
    obtain ⟨b, bs, less⟩ := s
    obtain ⟨value, rest⟩ := same
    cases rest with
    | nil => exact .error opened.start
    | cons first others =>
      simp only [first.kind]
      split
      · exact .ok ⟨value, others⟩
      · exact .error opened.start

theorem primary_inStep {rule : Rule} (respects : like.Respects placed rule) {t u : Token}
    {ts us : List Token} (first : like.TokensAt placed t u)
    (alike : List.Forall₂ (like.TokensAt placed) ts us) :
    InStep (StopsAt placed) (like.Readings placed like.OfSized) (primary rule t ts)
      (primary rule u us) := by
  have text := first.text
  unfold primary
  rw [← first.kind]
  cases kind : t.kind with
  | literal k => exact .ok ⟨⟨.literal (by simpa [kind, ofKind] using text), rfl⟩, alike⟩
  | identifier => exact .ok ⟨⟨.path (by simpa [kind, ofKind] using text), rfl⟩, alike⟩
  | path => exact .ok ⟨⟨.path (by simpa [kind, ofKind] using text), rfl⟩, alike⟩
  | functionName => exact call_inStep respects first (by simpa [kind, ofKind] using text) alike
  | openParen => exact parenthesized_inStep respects first alike
  | not =>
    have same := respects BinaryOperator.notPower ts us alike
    dsimp only
    generalize rule BinaryOperator.notPower ts = left at same ⊢
    generalize rule BinaryOperator.notPower us = right at same ⊢
    cases same with
    | error same => exact .error same
    | ok same =>
      refine bounded_inStep first.start ⟨⟨.not same.value.expr, ?_⟩, same.rest⟩
      exact congrArg (· + 1) same.value.height
  | _ => exact .error first.unexpected

theorem operators_inStep {rule : Rule} (respects : like.Respects placed rule) {power : Nat}
    {compared : Bool} {input other as bs : List Token} {a b : Sized}
    {shorter : as.length < input.length} {less : bs.length < other.length}
    (value : like.OfSized a b) (rest : List.Forall₂ (like.TokensAt placed) as bs) :
    InStep (StopsAt placed) (like.Readings placed like.OfSized)
      (operators rule power compared ⟨a, as, shorter⟩)
      (operators rule power compared ⟨b, bs, less⟩) := by
  rw [operators, operators]
  match as, bs, rest with
  | _, _, .nil => exact .ok ⟨value, .nil⟩
  | t :: ts, u :: us, .cons first others =>
    dsimp only
    rw [← first.kind]
    cases kind : t.kind with
    | operator op =>
      dsimp only
      split
      · exact .ok ⟨value, .cons first others⟩
      · split
        · exact .error first.start
        · have same := respects op.powers.2 ts us others
          generalize rule op.powers.2 ts = left at same ⊢
          generalize rule op.powers.2 us = right at same ⊢
          cases same with
          | error same => exact .error same
          | @ok c d same =>
            have height : max a.height c.value.height + 1 = max b.height d.value.height + 1 := by
              rw [value.height, same.value.height]
            dsimp only
            rw [height]
            split
            · exact .error first.start
            · exact operators_inStep respects ⟨.binary value.expr same.value.expr, rfl⟩ same.rest
    | _ => exact .ok ⟨value, .cons first others⟩
termination_by as.length
decreasing_by exact Nat.lt_succ_of_lt c.shorter

theorem nested_respects (depth : Nat) : like.Respects placed (nested depth) := by
  induction depth with
  | zero =>
    intro power ts us alike
    cases alike with
    | nil => exact .error fun _ => rfl
    | cons first _ => exact .error first.start
  | succ depth ih =>
    intro power ts us alike
    cases alike with
    | nil => exact .error fun _ => rfl
    | @cons t u ts us first others =>
      have same := primary_inStep ih first others
      simp only [nested]
      generalize primary (nested depth) t ts = left at same ⊢
      generalize primary (nested depth) u us = right at same ⊢
      cases same with
      | error same => exact .error same
      | ok same => exact operators_inStep ih same.value same.rest

theorem expression_inStep {ts us : List Token} (alike : List.Forall₂ (like.TokensAt placed) ts us) :
    InStep (StopsAt placed) (like.Readings placed like.OfSized) (expression ts) (expression us) :=
  nested_respects nestingLimit 0 ts us alike

theorem TokensAt.unnamed {t u : Token} (alike : like.TokensAt placed t u) {as bs : List ParsedExpr} :
    StopsAt placed
      ⟨if t.kind = .comma ∨ t.kind = .eof then .missingAlias t.start else .unexpected t, as⟩
      ⟨if u.kind = .comma ∨ u.kind = .eof then .missingAlias u.start else .unexpected u, bs⟩ := by
  rw [← alike.kind]
  split
  · exact alike.start
  · exact alike.unexpected

theorem computeItem_inStep {ts us : List Token}
    (alike : List.Forall₂ (like.TokensAt placed) ts us) :
    InStep (StopsAt placed) (like.Readings placed (Expr.Alike like)) (computeItem ts)
      (computeItem us) := by
  unfold computeItem
  have same := expression_inStep alike
  generalize expression ts = left at same ⊢
  generalize expression us = right at same ⊢
  cases same with
  | error same => exact .error same
  | @ok r s same =>
    obtain ⟨a, as, shorter⟩ := r
    obtain ⟨b, bs, less⟩ := s
    obtain ⟨value, rest⟩ := same
    cases rest with
    | nil => exact .error fun _ => rfl
    | @cons t u _ _ first others =>
      cases others with
      | nil => exact .error first.unnamed
      | @cons name other _ _ second others =>
        by_cases word : t.kind = .asWord
        · have same : u.kind = .asWord := by rw [← first.kind, word]
          simp only [word, same, if_true, second.kind]
          split
          · next named =>
            have text := second.text
            rw [second.kind, named] at text
            exact .ok ⟨.named value.expr text, others⟩
          · exact .error second.unexpected
        · have same : u.kind ≠ .asWord := by rw [← first.kind]; exact word
          simp only [word, same, if_false]
          exact .error first.unnamed

theorem orderItem_inStep {ts us : List Token} (alike : List.Forall₂ (like.TokensAt placed) ts us) :
    InStep (StopsAt placed) (like.Readings placed (Expr.Alike like)) (orderItem ts)
      (orderItem us) := by
  unfold orderItem
  have same := expression_inStep alike
  generalize expression ts = left at same ⊢
  generalize expression us = right at same ⊢
  cases same with
  | error same => exact .error same
  | @ok r s same =>
    obtain ⟨a, as, shorter⟩ := r
    obtain ⟨b, bs, less⟩ := s
    obtain ⟨value, rest⟩ := same
    cases rest with
    | nil => exact .ok ⟨.ordered value.expr, .nil⟩
    | @cons t u _ _ first others =>
      by_cases word : t.kind = .identifier
      · have other : u.kind = .identifier := by rw [← first.kind, word]
        simp only [word, other, if_true, first.direction word]
        split
        · exact .ok ⟨.ordered value.expr, others⟩
        · exact .error first.unexpected
      · have other : u.kind ≠ .identifier := by rw [← first.kind]; exact word
        simp only [word, other, if_false]
        exact .ok ⟨.ordered value.expr, .cons first others⟩

theorem items_inStep {item : (ts : List Token) → Except Stop (Reading ParsedExpr ts)}
    (respects : ∀ ts us, List.Forall₂ (like.TokensAt placed) ts us →
      InStep (StopsAt placed) (like.Readings placed (Expr.Alike like)) (item ts) (item us))
    {ts us : List Token} (alike : List.Forall₂ (like.TokensAt placed) ts us) :
    InStep (StopsAt placed) (Expr.AlikeAll like) (items item ts) (items item us) := by
  rw [items, items]
  have same := respects ts us alike
  generalize item ts = left at same ⊢
  generalize item us = right at same ⊢
  cases same with
  | error same => exact .error same
  | @ok r s same =>
    obtain ⟨a, as, shorter⟩ := r
    obtain ⟨b, bs, less⟩ := s
    obtain ⟨value, rest⟩ := same
    cases rest with
    | nil => exact .ok (.cons value .nil)
    | @cons t u ts us first others =>
      simp only [first.kind]
      split
      · have more := items_inStep respects others
        generalize items item ts = left at more ⊢
        generalize items item us = right at more ⊢
        cases more with
        | error same => exact .error same
        | ok more => exact .ok (.cons value more)
      · split
        · exact .ok (.cons value .nil)
        · exact .error first.unexpected
termination_by ts.length
decreasing_by exact Nat.lt_of_succ_lt shorter

theorem isBlank_eq {ts us : List Token} (alike : List.Forall₂ (like.TokensAt placed) ts us) :
    isBlank ts = isBlank us := by
  cases alike with
  | nil => rfl
  | cons first _ => simp only [isBlank, first.kind]

theorem compute_inStep {ts us : List Token} (alike : List.Forall₂ (like.TokensAt placed) ts us) :
    InStep (StopsAt placed) (Expr.AlikeAll like) (Parser.compute ts) (Parser.compute us) := by
  unfold Parser.compute
  rw [isBlank_eq alike]
  split
  · exact .error fun _ => rfl
  · exact items_inStep (fun _ _ => computeItem_inStep) alike

theorem orderBy_inStep {ts us : List Token} (alike : List.Forall₂ (like.TokensAt placed) ts us) :
    InStep (StopsAt placed) (Expr.AlikeAll like) (Parser.orderBy ts) (Parser.orderBy us) := by
  unfold Parser.orderBy
  rw [isBlank_eq alike]
  split
  · exact .error fun _ => rfl
  · exact items_inStep (fun _ _ => orderItem_inStep) alike

theorem filter_inStep {ts us : List Token} (alike : List.Forall₂ (like.TokensAt placed) ts us) :
    InStep (StopsAt placed) (Expr.Alike like) (Parser.filter ts) (Parser.filter us) := by
  have same := expression_inStep alike
  unfold Parser.filter
  rw [isBlank_eq alike]
  split
  · exact .error fun _ => rfl
  · generalize expression ts = left at same ⊢
    generalize expression us = right at same ⊢
    cases same with
    | error same => exact .error same
    | @ok r s same =>
      obtain ⟨a, as, shorter⟩ := r
      obtain ⟨b, bs, less⟩ := s
      obtain ⟨value, rest⟩ := same
      cases rest with
      | nil => exact .ok value.expr
      | cons first _ =>
        simp only [first.kind]
        split
        · exact .ok value.expr
        · exact .error first.unexpected

theorem tokens_anywhere {ts us : List Token} (alike : List.Forall₂ like.Tokens ts us) :
    List.Forall₂ (like.TokensAt False) ts us :=
  alike.imp fun _ _ tokens => ⟨tokens, False.elim⟩

theorem compute_agree {ts us : List Token} (alike : List.Forall₂ like.Tokens ts us) :
    Agree (Expr.AlikeAll like) (Parser.compute ts) (Parser.compute us) :=
  (compute_inStep (tokens_anywhere alike)).agree

theorem orderBy_agree {ts us : List Token} (alike : List.Forall₂ like.Tokens ts us) :
    Agree (Expr.AlikeAll like) (Parser.orderBy ts) (Parser.orderBy us) :=
  (orderBy_inStep (tokens_anywhere alike)).agree

theorem filter_agree {ts us : List Token} (alike : List.Forall₂ like.Tokens ts us) :
    Agree (Expr.Alike like) (Parser.filter ts) (Parser.filter us) :=
  (filter_inStep (tokens_anywhere alike)).agree

end Likeness

end ClauseSql
