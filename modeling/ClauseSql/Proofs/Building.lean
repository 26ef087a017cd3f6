import ClauseSql.Compiler

/-! Building while parsing comes to the same as parsing first and storing the parsed expressions afterwards,
children before parents and left before right. Reading an expression leaves the arguments of open calls
waiting as they were, and reading arguments adds their handles behind them, so that every call takes its own
and nothing else. A failed parse leaves what has been parsed completely. -/
namespace ClauseSql

namespace Tree

mutual
def store (t : Tree) : ParsedExpr → NodeId × Tree
  | .literal kind text => t.push (.literal kind text)
  | .path text => t.push (.path text)
  | .not operand =>
    let (operand, t) := t.store operand
    t.push (.not operand)
  | .binary op left right =>
    let (left, t) := t.store left
    let (right, t) := t.store right
    t.push (.binary op left right)
  | .call name args =>
    let (ids, t) := t.storeAll args
    let (list, t) := t.pushArgs ids
    t.push (.call name list)
  | .named value name =>
    let (value, t) := t.store value
    t.push (.named value name)
  | .ordered value descending =>
    let (value, t) := t.store value
    t.push (.ordered value descending)
  | .broken reason => nomatch reason
  | .brokenCall _ reason => nomatch reason
def storeAll (t : Tree) : List ParsedExpr → List NodeId × Tree
  | [] => ([], t)
  | e :: es =>
    let (id, t) := t.store e
    let (ids, t) := t.storeAll es
    (id :: ids, t)
end

theorem storeAll_append (t : Tree) (es fs : List ParsedExpr) :
    (t.storeAll (es ++ fs)).2 = ((t.storeAll es).2.storeAll fs).2 := by
  induction es generalizing t with
  | nil => rfl
  | cons e es ih => exact ih _

end Tree

namespace Pool

/-- Stores what a parser has built in a tree of this pool. Storage of a failed parse is given back
at once. -/
def keep {α ρ : Type} (p : Pool) (source : String) (parsed : Except Parser.Stop α)
    (store : Tree → α → ρ × Tree) : ParseResult ρ × Pool :=
  let (tree, p) := p.acquire source.toList
  match parsed with
  | .ok built =>
    let (root, tree) := store tree built
    (.ok (tree, root), p)
  | .error stop => (.error stop.cause, p.release (tree.storeAll stop.built).2)

def storeItems (t : Tree) (items : List ParsedExpr) : ArgList × Tree :=
  let (ids, t) := t.storeAll items
  t.pushArgs ids

end Pool

namespace Builder

open ClauseSql.Parser (Sized Stop)

def storeRoot (b : Builder) (e : ParsedExpr) : NodeId × Builder :=
  ((b.tree.store e).1, { b with tree := (b.tree.store e).2 })

def storeReading {ts : List Token} (b : Builder) (r : Reading Sized ts) : Reading Built ts × Builder :=
  (⟨⟨(b.storeRoot r.value.expr).1, r.value.height⟩, r.rest, r.shorter⟩, (b.storeRoot r.value.expr).2)

def storeItem {ts : List Token} (b : Builder) (r : Reading ParsedExpr ts) : Reading NodeId ts × Builder :=
  (⟨(b.storeRoot r.value).1, r.rest, r.shorter⟩, (b.storeRoot r.value).2)

def storeArguments {ts : List Token} (height : Nat) (b : Builder) (r : Reading (List ParsedExpr × Nat) ts) :
    Reading Nat ts × Builder :=
  (⟨max height r.value.2, r.rest, r.shorter⟩,
    ⟨(b.tree.storeAll r.value.1).2, b.waiting ++ (b.tree.storeAll r.value.1).1⟩)

def storeItems (b : Builder) (es : List ParsedExpr) : List NodeId × Builder :=
  ((b.tree.storeAll es).1, { b with tree := (b.tree.storeAll es).2 })

def storeList (b : Builder) (es : List ParsedExpr) : ArgList × Builder :=
  ((Pool.storeItems b.tree es).1, { b with tree := (Pool.storeItems b.tree es).2 })

/-- What is built is what is parsed, once it has been stored. If parsing stops, some handles may be left
waiting behind those that were. -/
def Builds {α β : Type} (store : Builder → α → β × Builder) (b : Builder) (parsed : Except Stop α)
    (built : Result β) : Prop :=
  match parsed with
  | .ok a => built = (.ok (store b a).1, (store b a).2)
  | .error stop => ∃ more, built = (.error stop.cause, ⟨(b.tree.storeAll stop.built).2, b.waiting ++ more⟩)

section Builds

variable {α β γ δ : Type} {store : Builder → α → β × Builder} {other : Builder → γ → δ × Builder}
  {b : Builder} {parsed : Except Stop α} {built : Result β} {whole : Except Stop γ}

/-- A step behind others. What these have stored is part of what a failed parse leaves. -/
theorem Builds.andThenBehind (done : List ParsedExpr) (added : List NodeId) {now : Builder}
    {next : β → Builder → Result δ} (stored : now = ⟨(b.tree.storeAll done).2, b.waiting ++ added⟩)
    (step : Builds store now parsed built)
    (stops : ∀ stop, parsed = .error stop → whole = .error (stop.after done))
    (goes : ∀ a, parsed = .ok a → Builds other b whole (next (store now a).1 (store now a).2)) :
    Builds other b whole (built.andThen next) := by
  cases parsed with
  | error stop =>
    obtain ⟨more, rfl⟩ := step
    rw [stops stop rfl, stored]
    refine ⟨added ++ more, ?_⟩
    simp [Result.andThen, Stop.after, Tree.storeAll_append]
  | ok a =>
    obtain rfl : built = _ := step
    exact goes a rfl

theorem Builds.andThen {next : β → Builder → Result δ} (step : Builds store b parsed built)
    (stops : ∀ stop, parsed = .error stop → whole = .error stop)
    (goes : ∀ a, parsed = .ok a → Builds other b whole (next (store b a).1 (store b a).2)) :
    Builds other b whole (built.andThen next) :=
  step.andThenBehind [] [] (by simp [Tree.storeAll]) stops goes

theorem Builds.fail (store : Builder → α → β × Builder) (b : Builder) (cause : ParseError) :
    Builds store b (.error ⟨cause, []⟩) (.error cause, b) :=
  ⟨[], by simp [Tree.storeAll]⟩

theorem Builds.failBehind (store : Builder → α → β × Builder) (b : Builder) (cause : ParseError)
    (e : ParsedExpr) : Builds store b (.error ⟨cause, [e]⟩) (.error cause, (b.storeRoot e).2) :=
  ⟨[], by simp [storeRoot, Tree.storeAll]⟩

theorem Builds.bounded {ts : List Token} {position : Nat} {parts : List ParsedExpr} {r : Reading Sized ts}
    {now : Builder} {next : Builder → Result (Reading Built ts)} (more : List NodeId)
    (stored : now = ⟨(b.tree.storeAll parts).2, b.waiting ++ more⟩)
    (goes : next now = (.ok (storeReading b r).1, (storeReading b r).2)) :
    Builds storeReading b (Parser.bounded position parts r)
      (Builder.bounded position r.value.height now next) := by
  unfold Parser.bounded Builder.bounded
  by_cases high : Parser.nestingLimit < r.value.height
  · rw [if_pos high, if_pos high, stored]
    exact ⟨more, rfl⟩
  · rw [if_neg high, if_neg high]
    exact goes

end Builds

def Faithful (rule : Parser.Rule) (build : Rule) : Prop :=
  ∀ power ts b, Builds storeReading b (rule power ts) (build power ts b)

section Rules

variable {rule : Parser.Rule} {build : Rule} (faithful : Faithful rule build)
include faithful

theorem arguments_builds (openedAt height : Nat) (ts : List Token) (b : Builder) :
    Builds (storeArguments height) b (Parser.arguments rule openedAt ts)
      (arguments build openedAt height ts b) := by
  rw [arguments]
  refine (faithful 0 ts b).andThen (fun stop failed => by rw [Parser.arguments, failed]) fun arg read => ?_
  obtain ⟨arg, after, shorter⟩ := arg
  rw [Parser.arguments, read]
  dsimp only [storeReading]
  cases after with
  | nil => exact ⟨[_], rfl⟩
  | cons t rest =>
    dsimp only
    by_cases closes : t.kind = .closeParen
    · rw [if_pos closes, if_pos closes]
      rfl
    rw [if_neg closes, if_neg closes]
    by_cases ends : t.kind = .eof
    · rw [if_pos ends, if_pos ends]
      exact ⟨[_], rfl⟩
    rw [if_neg ends, if_neg ends]
    by_cases separates : t.kind = .comma
    · rw [if_pos separates, if_pos separates]
      have less : rest.length < ts.length := Nat.lt_of_succ_lt shorter
      have others := arguments_builds openedAt (max height arg.height) rest
        ((b.storeRoot arg.expr).2.wait (b.storeRoot arg.expr).1)
      refine others.andThenBehind [arg.expr] [(b.storeRoot arg.expr).1] rfl
        (fun stop failed => by rw [failed]) fun args read => ?_
      rw [read]
      simp [Builds, storeRoot, storeArguments, Tree.storeAll, Nat.max_assoc]
    · rw [if_neg separates, if_neg separates]
      exact ⟨[_], rfl⟩
termination_by ts.length

omit faithful in
/-- A call takes the handles of its own arguments, and leaves what waited before. -/
theorem close_builds {ts : List Token} (name : Token) (args : List ParsedExpr) (height : Nat)
    (rest : List Token) (shorter : rest.length < ts.length) (b : Builder) :
    Builds storeReading b
      (Parser.bounded name.start args ⟨⟨.call name.span args, height⟩, rest, shorter⟩)
      (close ⟨(b.tree.storeAll args).2, b.waiting ++ (b.tree.storeAll args).1⟩ name b.waiting.length height
        rest shorter) := by
  refine .bounded (b.tree.storeAll args).1 rfl ?_
  simp [drain, pushed, push, storeReading, storeRoot, Tree.store]

theorem call_builds (name : Token) (ts : List Token) (b : Builder) :
    Builds storeReading b (Parser.call rule name ts) (call build name ts b) := by
  cases ts with
  | nil => exact .fail _ _ _
  | cons opening ts =>
  cases ts with
  | nil => exact .fail _ _ _
  | cons t rest =>
    rw [Parser.call, call]
    by_cases opens : opening.kind = .openParen
    · rw [if_pos opens, if_pos opens]
      by_cases closes : t.kind = .closeParen
      · rw [if_pos closes, if_pos closes]
        have none := @close_builds (name :: opening :: t :: rest) name [] 1 rest
          (by simp only [List.length_cons]; omega) b
        simpa [Parser.bounded, Parser.nestingLimit, Tree.storeAll] using none
      rw [if_neg closes, if_neg closes]
      by_cases ends : t.kind = .eof
      · rw [if_pos ends, if_pos ends]
        exact .fail _ _ _
      rw [if_neg ends, if_neg ends]
      refine (arguments_builds faithful opening.start 0 (t :: rest) b).andThen (fun stop failed => ?_)
        fun args read => ?_
      · rw [failed]
      · rw [read]
        simpa only [storeArguments, Nat.zero_max] using close_builds name args.value.1 _ args.rest _ b
    · rw [if_neg opens, if_neg opens]
      exact .fail _ _ _

theorem parenthesized_builds (opening : Token) (ts : List Token) (b : Builder) :
    Builds storeReading b (Parser.parenthesized rule opening ts) (parenthesized build opening ts b) := by
  refine (faithful 0 ts b).andThen (fun stop failed => by rw [Parser.parenthesized, failed])
    fun inner read => ?_
  obtain ⟨inner, after, shorter⟩ := inner
  rw [Parser.parenthesized, read]
  dsimp only [storeReading]
  cases after with
  | nil => exact .failBehind _ _ _ _
  | cons t rest =>
    dsimp only
    by_cases closes : t.kind = .closeParen
    · rw [if_pos closes, if_pos closes]
      rfl
    · rw [if_neg closes, if_neg closes]
      exact .failBehind _ _ _ _

theorem primary_builds (first : Token) (ts : List Token) (b : Builder) :
    Builds storeReading b (Parser.primary rule first ts) (primary build first ts b) := by
  unfold Parser.primary primary
  cases kind : first.kind with
  | literal | identifier | path => rfl
  | functionName => exact call_builds faithful first ts b
  | openParen => exact parenthesized_builds faithful first ts b
  | not =>
    refine (faithful BinaryOperator.notPower ts b).andThen (fun stop failed => by rw [failed])
      fun operand read => ?_
    rw [read]
    refine .bounded [] ?_ rfl
    simp [storeReading, storeRoot, Tree.storeAll]
  | _ => exact .fail _ _ _

theorem operators_builds (power : Nat) (compared : Bool) {input : List Token} (left : Reading Sized input)
    (b : Builder) :
    Builds storeReading b (Parser.operators rule power compared left)
      (operators build power compared (storeReading b left).1 (storeReading b left).2) := by
  obtain ⟨value, after, shorter⟩ := left
  rw [Parser.operators, operators]
  dsimp only [storeReading]
  cases after with
  | nil => rfl
  | cons t ts =>
    dsimp only
    cases kind : t.kind with
    | operator op =>
      dsimp only
      by_cases weak : op.powers.1 < power
      · rw [if_pos weak, if_pos weak]
        rfl
      rw [if_neg weak, if_neg weak]
      by_cases chained : (op.isComparison && compared) = true
      · rw [if_pos chained, if_pos chained]
        exact .failBehind _ _ _ _
      rw [if_neg chained, if_neg chained]
      refine (faithful op.powers.2 ts _).andThenBehind [value.expr] [] ?_
        (fun stop failed => by rw [failed]) fun right read => ?_
      · simp [storeRoot, Tree.storeAll]
      · rw [read]
        have less : right.rest.length < (t :: ts).length := Nat.lt_succ_of_lt right.shorter
        dsimp only [storeReading, bounded]
        by_cases high : Parser.nestingLimit < max value.height right.value.height + 1
        · rw [if_pos high, if_pos high]
          exact ⟨[], by simp [storeRoot, Tree.storeAll]⟩
        · rw [if_neg high, if_neg high]
          exact operators_builds power (compared || op.isComparison)
            ⟨⟨.binary op value.expr right.value.expr, max value.height right.value.height + 1⟩, right.rest,
              Nat.lt_trans less shorter⟩ b
    | _ => rfl
termination_by left.rest.length

end Rules

theorem nested_faithful (depth : Nat) : Faithful (Parser.nested depth) (nested depth) := by
  induction depth with
  | zero =>
    intro power ts b
    cases ts with
    | nil => exact .fail _ _ _
    | cons first rest => exact .fail _ _ _
  | succ depth ih =>
    intro power ts b
    cases ts with
    | nil => exact .fail _ _ _
    | cons first rest =>
      rw [Parser.nested, nested]
      dsimp only
      refine (primary_builds ih first rest b).andThen (fun stop failed => by rw [failed]) fun left read => ?_
      rw [read]
      exact operators_builds ih power false left b

theorem expression_builds (ts : List Token) (b : Builder) :
    Builds storeReading b (Parser.expression ts) (expression ts b) :=
  nested_faithful _ 0 ts b

theorem computeItem_builds (ts : List Token) (b : Builder) :
    Builds storeItem b (Parser.computeItem ts) (computeItem ts b) := by
  refine (expression_builds ts b).andThen (fun stop failed => by rw [Parser.computeItem, failed])
    fun value read => ?_
  obtain ⟨value, after, shorter⟩ := value
  rw [Parser.computeItem, read]
  dsimp only [storeReading]
  cases after with
  | nil => exact .failBehind _ _ _ _
  | cons t after =>
  cases after with
  | nil => exact .failBehind _ _ _ _
  | cons name rest =>
    dsimp only
    by_cases joins : t.kind = .asWord
    · rw [if_pos joins, if_pos joins]
      by_cases names : name.kind = .identifier
      · rw [if_pos names, if_pos names]
        rfl
      · rw [if_neg names, if_neg names]
        exact .failBehind _ _ _ _
    · rw [if_neg joins, if_neg joins]
      exact .failBehind _ _ _ _

theorem orderItem_builds (ts : List Token) (b : Builder) :
    Builds storeItem b (Parser.orderItem ts) (orderItem ts b) := by
  refine (expression_builds ts b).andThen (fun stop failed => by rw [Parser.orderItem, failed])
    fun value read => ?_
  obtain ⟨value, after, shorter⟩ := value
  rw [Parser.orderItem, read]
  dsimp only [storeReading]
  cases after with
  | nil => rfl
  | cons t rest =>
    dsimp only
    by_cases word : t.kind = .identifier
    · rw [if_pos word, if_pos word]
      cases Parser.direction? t.lexeme with
      | none => exact .failBehind _ _ _ _
      | some descending => rfl
    · rw [if_neg word, if_neg word]
      rfl

section Lists

variable {item : (ts : List Token) → Except Stop (Reading ParsedExpr ts)}
  {build : (ts : List Token) → Builder → Result (Reading NodeId ts)}
  (faithful : ∀ ts b, Builds storeItem b (item ts) (build ts b))
include faithful

theorem items_builds (ts : List Token) (b : Builder) :
    Builds storeItems b (Parser.items item ts) (items build ts b) := by
  rw [items]
  refine (faithful ts b).andThen (fun stop failed => by rw [Parser.items, failed]) fun first read => ?_
  obtain ⟨first, after, shorter⟩ := first
  rw [Parser.items, read]
  dsimp only [storeItem]
  cases after with
  | nil => rfl
  | cons t rest =>
    dsimp only
    by_cases separates : t.kind = .comma
    · rw [if_pos separates, if_pos separates]
      have less : rest.length < ts.length := Nat.lt_of_succ_lt shorter
      refine (items_builds rest _).andThenBehind [first] [] ?_ (fun stop failed => by rw [failed])
        fun more read => ?_
      · simp [storeRoot, Tree.storeAll]
      · rw [read]
        rfl
    rw [if_neg separates, if_neg separates]
    by_cases ends : t.kind = .eof
    · rw [if_pos ends, if_pos ends]
      rfl
    · rw [if_neg ends, if_neg ends]
      exact .failBehind _ _ _ _
termination_by ts.length

theorem list_builds (ts : List Token) (b : Builder) :
    Builds storeList b (if Parser.isBlank ts then .error ⟨.noExpression, []⟩ else Parser.items item ts)
      (list build ts b) := by
  rw [list]
  by_cases blank : Parser.isBlank ts = true
  · rw [if_pos blank, if_pos blank]
    exact .fail _ _ _
  · rw [if_neg blank, if_neg blank]
    refine (items_builds faithful ts b).andThen (fun _ failed => failed) fun es read => ?_
    rw [read]
    rfl

end Lists

theorem filter_builds (ts : List Token) (b : Builder) :
    Builds storeRoot b (Parser.filter ts) (filter ts b) := by
  rw [Parser.filter, filter]
  by_cases blank : Parser.isBlank ts = true
  · rw [if_pos blank, if_pos blank]
    exact .fail _ _ _
  · rw [if_neg blank, if_neg blank]
    refine (expression_builds ts b).andThen (fun stop failed => by rw [failed]) fun root read => ?_
    obtain ⟨root, after, shorter⟩ := root
    rw [read]
    cases after with
    | nil => rfl
    | cons t rest =>
      dsimp only [storeReading]
      by_cases ends : t.kind = .eof
      · rw [if_pos ends, if_pos ends]
        rfl
      · rw [if_neg ends, if_neg ends]
        exact .failBehind _ _ _ _

end Builder

namespace Pool

open Builder

theorem build_eq_keep {α ρ : Type} (p : Pool) (source : String) {parsed : Except Parser.Stop α}
    {store : Tree → α → ρ × Tree} {parse : Builder → Result ρ}
    (builds : ∀ b, Builds (fun b a => ((store b.tree a).1, { b with tree := (store b.tree a).2 })) b parsed
      (parse b)) : p.build source parse = p.keep source parsed store := by
  have built := builds ⟨(p.acquire source.toList).1, []⟩
  rw [build, keep]
  dsimp only
  cases parsed with
  | error stop =>
    obtain ⟨more, same⟩ := built
    rw [same]
  | ok a =>
    change parse _ = _ at built
    rw [built]

theorem parseFilter_eq (p : Pool) (source : String) (ts : List Token) :
    p.parseFilter source ts = p.keep source (Parser.filter ts) Tree.store :=
  p.build_eq_keep source (filter_builds ts)

theorem parseCompute_eq (p : Pool) (source : String) (ts : List Token) :
    p.parseCompute source ts = p.keep source (Parser.compute ts) storeItems :=
  p.build_eq_keep source (list_builds computeItem_builds ts)

theorem parseOrderBy_eq (p : Pool) (source : String) (ts : List Token) :
    p.parseOrderBy source ts = p.keep source (Parser.orderBy ts) storeItems :=
  p.build_eq_keep source (list_builds orderItem_builds ts)

end Pool

end ClauseSql
