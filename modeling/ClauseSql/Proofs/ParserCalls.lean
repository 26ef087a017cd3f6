import Mathlib.Data.List.MinMax
import ClauseSql.Proofs.Lookahead
import ClauseSql.Proofs.RoundTrip

/-! How deep the parser goes. Reading an expression makes further calls of the rule, one after the other:
for what stands in parentheses, for arguments, for a negated expression and for right operands. The
height that the parser keeps with an expression is its height, and it never passes the limit; nor does
the number of calls that are active at once, as long as none of them is refused. -/
namespace ClauseSql

namespace Expr

variable {σ β : Type}

theorem bare_height_le (e : Expr σ β) : e.bare.height ≤ e.height := by
  cases e with
  | named | ordered => exact Nat.le_succ _
  | _ => exact Nat.le_refl _

theorem Part.height_le {part e : Expr σ β} (inside : part.Part e) : part.height ≤ e.height := by
  induction inside with
  | whole => exact Nat.le_refl _
  | not _ ih | named _ ih | ordered _ ih =>
    simp only [height]
    omega
  | left _ ih | right _ ih =>
    simp only [height]
    omega
  | argument member _ ih =>
    have low := heightOfAll_le_iff.1 (Nat.le_refl _) _ member
    simp only [height]
    omega

theorem Part.bare_height_le {part e : Expr σ β} (inside : part.Part e) :
    part.bare.height ≤ e.bare.height := by
  cases inside with
  | whole => exact Nat.le_refl _
  | named inner | ordered inner => exact (Expr.bare_height_le part).trans inner.height_le
  | not inner => exact (Expr.bare_height_le part).trans (Part.not inner).height_le
  | left inner => exact (Expr.bare_height_le part).trans (Part.left inner).height_le
  | right inner => exact (Expr.bare_height_le part).trans (Part.right inner).height_le
  | argument member inner =>
    exact (Expr.bare_height_le part).trans (Part.argument member inner).height_le

end Expr

theorem Reading.length_behind {α : Type} {ts rest : List Token} {t : Token} (r : Reading α ts)
    (follows : r.rest = t :: rest) : rest.length < ts.length := by
  have shorter := r.shorter
  rw [follows] at shorter
  exact Nat.lt_of_succ_lt shorter

namespace Parser

def Measures (rule : Rule) : Prop :=
  ∀ power ts r, rule power ts = .ok r →
    r.value.height = r.value.expr.height ∧ r.value.expr.height ≤ nestingLimit

theorem leaf_low : 1 ≤ nestingLimit := by decide

theorem arguments_measures {rule : Rule} (measures : Measures rule) {openedAt : Nat} {ts : List Token}
    {r : Reading (List ParsedExpr × Nat) ts} (done : arguments rule openedAt ts = .ok r) :
    r.value.2 = Expr.heightOfAll r.value.1 := by
  obtain ⟨arg, t, rest, read, follows, last⟩ := arguments_ok done
  have first := (measures _ _ _ read).1
  obtain ⟨-, value, -⟩ | ⟨-, more, others, value, -⟩ := last
  · simp [value, Expr.heightOfAll, first]
  · have less := arg.length_behind follows
    have inside := arguments_measures measures others
    simp only [value, Expr.heightOfAll, first, inside]
termination_by ts.length

theorem call_measures {rule : Rule} (measures : Measures rule) {name : Token} {ts : List Token}
    {r : Reading Sized (name :: ts)} (done : call rule name ts = .ok r) :
    r.value.height = r.value.expr.height ∧ r.value.expr.height ≤ nestingLimit := by
  obtain ⟨opening, t, rest, rfl, -, inside⟩ := call_ok done
  obtain ⟨-, value, -⟩ | ⟨args, read, low, value, -⟩ := inside
  · rw [value]
    exact ⟨rfl, leaf_low⟩
  · have height := arguments_measures measures read
    rw [height] at low value
    rw [value]
    exact ⟨rfl, low⟩

theorem primary_measures {rule : Rule} (measures : Measures rule) {first : Token} {ts : List Token}
    {r : Reading Sized (first :: ts)} (done : primary rule first ts = .ok r) :
    r.value.height = r.value.expr.height ∧ r.value.expr.height ≤ nestingLimit := by
  unfold primary at done
  split at done
  · cases done; exact ⟨rfl, leaf_low⟩
  · cases done; exact ⟨rfl, leaf_low⟩
  · cases done; exact ⟨rfl, leaf_low⟩
  · exact call_measures measures done
  · obtain ⟨inner, t, read, -, -, value⟩ := parenthesized_ok done
    rw [value]
    exact measures _ _ _ read
  · split at done
    · cases done
    · next operand read =>
      obtain ⟨rfl, low⟩ := bounded_ok done
      have height := (measures _ _ _ read).1
      simp only [Reading.map, Reading.behind, height] at low ⊢
      exact ⟨rfl, low⟩
  · cases done

theorem operators_measures {rule : Rule} (measures : Measures rule) {power : Nat} {compared : Bool}
    {input : List Token} {left result : Reading Sized input}
    (done : operators rule power compared left = .ok result)
    (before : left.value.height = left.value.expr.height ∧ left.value.expr.height ≤ nestingLimit) :
    result.value.height = result.value.expr.height ∧ result.value.expr.height ≤ nestingLimit := by
  obtain ⟨rfl, -⟩ | ⟨t, ts, op, right, less, follows, kind, -, -, read, low, more⟩ :=
    Grammar.operators_ok done
  · exact before
  · have height := (measures _ _ _ read).1
    refine operators_measures measures more ⟨?_, ?_⟩
    · simp only [Expr.height, before.1, height]
    · simpa only [Expr.height, before.1, height] using low
termination_by left.rest.length
decreasing_by
  rw [follows]
  exact Nat.lt_succ_of_lt right.shorter

theorem nested_measures (depth : Nat) : Measures (nested depth) := by
  induction depth with
  | zero =>
    intro power ts r done
    cases ts <;> cases done
  | succ depth ih =>
    intro power ts r done
    cases ts with
    | nil => cases done
    | cons first rest =>
      rw [Grammar.nested_succ] at done
      split at done
      · cases done
      · next left read => exact operators_measures ih done (primary_measures ih read)

theorem items_read {item : (ts : List Token) → Except Stop (Reading ParsedExpr ts)} {ts : List Token}
    {es : List ParsedExpr} (done : items item ts = .ok es) :
    ∀ e ∈ es, ∃ us, ∃ r : Reading ParsedExpr us, item us = .ok r ∧ r.value = e := by
  obtain ⟨first, read, made⟩ := items_ok done
  obtain ⟨rfl, -⟩ | ⟨t, rest, more, follows, -, others, rfl⟩ := made
  · rw [List.forall_mem_singleton]
    exact ⟨ts, first, read, rfl⟩
  · have less := first.length_behind follows
    rw [List.forall_mem_cons]
    exact ⟨⟨ts, first, read, rfl⟩, items_read others⟩
termination_by ts.length

theorem clause_low {clause : Clause} {ts : List Token} {es : List ParsedExpr}
    (done : Parser.clause clause ts = .ok es) : ∀ e ∈ es, e.bare.height ≤ nestingLimit := by
  have low {us : List Token} {value : Reading Sized us} (read : expression us = .ok value) :
      value.value.expr.height ≤ nestingLimit := (nested_measures _ _ _ _ read).2
  intro e member
  cases clause with
  | filter =>
    obtain ⟨_, built, rfl⟩ := Outcome.map_eq_ok.1 done
    obtain ⟨root, read, rfl, -⟩ := filter_ok built
    rw [List.mem_singleton.1 member]
    exact (Expr.bare_height_le _).trans (low read)
  | compute =>
    obtain ⟨us, r, item, rfl⟩ := items_read (compute_ok done) e member
    obtain ⟨value, _, _, read, -, -, -, made⟩ := computeItem_ok item
    rw [made]
    exact low read
  | orderBy =>
    obtain ⟨us, r, item, rfl⟩ := items_read (orderBy_ok done) e member
    obtain ⟨value, read, made⟩ := orderItem_ok item
    obtain ⟨-, made⟩ | ⟨_, _, -, -, -, made⟩ := made
    · rw [made]
      exact low read
    · rw [made]
      exact low read

/-- A call of a rule: the power that operators must have, and the tokens to be read. -/
structure Call where
  power : Nat
  tokens : List Token

namespace Call

def Answered (rule : Rule) (c : Call) : Prop := ∃ r, rule c.power c.tokens = .ok r

def Alike (rule other : Rule) (c : Call) : Prop := other c.power c.tokens = rule c.power c.tokens

end Call

def listCalls {α : Type} (read : (ts : List Token) → Except Stop (Reading α ts)) (ts : List Token) :
    List Call :=
  ⟨0, ts⟩ ::
    match read ts with
    | .error _ => []
    | .ok ⟨_, after, shorter⟩ =>
      match after, shorter with
      | [], _ => []
      | t :: rest, shorter =>
        have : rest.length < ts.length := Nat.lt_of_succ_lt shorter
        if t.kind = .comma then listCalls read rest else []
termination_by ts.length

def primaryCalls (rule : Rule) (first : Token) (ts : List Token) : List Call :=
  match first.kind with
  | .functionName =>
    match ts with
    | opening :: t :: rest =>
      if opening.kind = .openParen then
        if t.kind = .closeParen ∨ t.kind = .eof then [] else listCalls (rule 0) (t :: rest)
      else []
    | _ => []
  | .openParen => [⟨0, ts⟩]
  | .not => [⟨BinaryOperator.notPower, ts⟩]
  | _ => []

def operatorCalls (rule : Rule) (power : Nat) (compared : Bool) {input : List Token}
    (left : Reading Sized input) : List Call :=
  match follows : left.rest with
  | [] => []
  | t :: ts =>
    match t.kind with
    | .operator op =>
      if op.powers.1 < power then []
      else if op.isComparison && compared then []
      else
        ⟨op.powers.2, ts⟩ ::
          match rule op.powers.2 ts with
          | .error _ => []
          | .ok right =>
            have less : right.rest.length < left.rest.length := by
              rw [follows]
              exact Nat.lt_succ_of_lt right.shorter
            let height := max left.value.height right.value.height + 1
            if nestingLimit < height then []
            else
              operatorCalls rule power (compared || op.isComparison)
                ⟨⟨.binary op left.value.expr right.value.expr, height⟩, right.rest,
                  Nat.lt_trans less left.shorter⟩
    | _ => []
termination_by left.rest.length

/-- The calls that are made to answer a call, in order. Between one and the next no call of its own is
active. -/
def calls (rule : Rule) (c : Call) : List Call :=
  match c.tokens with
  | [] => []
  | first :: rest =>
    primaryCalls rule first rest ++
      match primary rule first rest with
      | .error _ => []
      | .ok left => operatorCalls rule c.power false left

/-- The greatest number of calls that are active at once while a call is answered, the call itself
counted. No more than `depth` may be; one more than that is refused as soon as it is made. -/
def deepest : (depth : Nat) → Call → Nat
  | 0, _ => 1
  | depth + 1, c => ((calls (nested depth) c).map (deepest depth)).foldr max 0 + 1

theorem listCalls_last {α : Type} {read : (ts : List Token) → Except Stop (Reading α ts)}
    {ts : List Token} {first : Reading α ts} (done : read ts = .ok first)
    (last : ∀ t ∈ first.rest.head?, t.kind ≠ .comma) : listCalls read ts = [⟨0, ts⟩] := by
  obtain ⟨value, after, shorter⟩ := first
  rw [listCalls, done]
  cases after with
  | nil => rfl
  | cons t rest => simp [show t.kind ≠ .comma from last t rfl]

theorem listCalls_comma {α : Type} {read : (ts : List Token) → Except Stop (Reading α ts)}
    {ts rest : List Token} {first : Reading α ts} {t : Token} (done : read ts = .ok first)
    (follows : first.rest = t :: rest) (comma : t.kind = .comma) :
    listCalls read ts = ⟨0, ts⟩ :: listCalls read rest := by
  obtain ⟨value, after, shorter⟩ := first
  subst follows
  rw [listCalls, done]
  simp [comma]

theorem operatorCalls_stop {rule : Rule} {power : Nat} {compared : Bool} {input : List Token}
    {left : Reading Sized input} (stops : Grammar.Stops power left.rest) :
    operatorCalls rule power compared left = [] := by
  unfold operatorCalls
  split
  · rfl
  · next t ts follows =>
    rw [follows] at stops
    split
    · next op kind => rw [if_pos (by simpa using stops op kind)]
    · rfl

theorem operatorCalls_step {rule : Rule} {power : Nat} {compared : Bool} {input : List Token}
    {left : Sized} {t : Token} {ts : List Token} {shorter : (t :: ts).length < input.length}
    {op : BinaryOperator} {right : Reading Sized ts} (kind : t.kind = .operator op)
    (strong : power ≤ (Grammar.Rank.of op).power) (single : op.isComparison → compared = false)
    (read : rule ((Grammar.Rank.of op).power + 1) ts = .ok right)
    (low : max left.height right.value.height + 1 ≤ nestingLimit) :
    operatorCalls rule power compared (⟨left, t :: ts, shorter⟩ : Reading Sized input) =
      ⟨(Grammar.Rank.of op).power + 1, ts⟩ ::
        operatorCalls rule power (compared || op.isComparison)
          (⟨⟨.binary op left.expr right.value.expr, max left.height right.value.height + 1⟩, right.rest,
            Nat.lt_trans right.shorter (Nat.lt_of_succ_lt shorter)⟩ : Reading Sized input) := by
  have unchained : (op.isComparison && compared) = false := by
    cases comparison : op.isComparison with
    | false => rfl
    | true => exact single comparison
  rw [operatorCalls]
  simp [kind, Nat.not_lt.mpr strong, unchained, read, Nat.not_lt.mpr low]

theorem arguments_answered {rule : Rule} {openedAt : Nat} {ts : List Token}
    {r : Reading (List ParsedExpr × Nat) ts} (done : arguments rule openedAt ts = .ok r) :
    ∀ c ∈ listCalls (rule 0) ts, c.Answered rule := by
  obtain ⟨arg, t, rest, read, follows, last⟩ := arguments_ok done
  obtain ⟨closes, -⟩ | ⟨comma, more, others, -⟩ := last
  · rw [listCalls_last read (by simp [follows, closes])]
    simpa using ⟨arg, read⟩
  · have less := arg.length_behind follows
    rw [listCalls_comma read follows comma, List.forall_mem_cons]
    exact ⟨⟨arg, read⟩, arguments_answered others⟩
termination_by ts.length

theorem primary_answered {rule : Rule} {first : Token} {ts : List Token}
    {r : Reading Sized (first :: ts)} (done : primary rule first ts = .ok r) :
    ∀ c ∈ primaryCalls rule first ts, c.Answered rule := by
  unfold primary at done
  unfold primaryCalls
  split at done
  · next is => simp [is]
  · next is => simp [is]
  · next is => simp [is]
  · next is =>
    obtain ⟨opening, t, rest, rfl, opens, inside⟩ := call_ok done
    obtain ⟨closes, -⟩ | ⟨args, read, -⟩ := inside
    · simp [is, opens, closes]
    · simp only [is, opens, if_true]
      split
      · simp
      · exact arguments_answered read
  · next is =>
    obtain ⟨inner, t, read, -⟩ := parenthesized_ok done
    simpa [is] using ⟨inner, read⟩
  · next is =>
    split at done
    · cases done
    · next operand read => simpa [is] using ⟨operand, read⟩
  · cases done

theorem operators_answered {rule : Rule} {power : Nat} {compared : Bool} {input : List Token}
    {left result : Reading Sized input} (done : operators rule power compared left = .ok result) :
    ∀ c ∈ operatorCalls rule power compared left, c.Answered rule := by
  obtain ⟨rfl, stops⟩ | ⟨t, ts, op, right, less, follows, kind, strong, single, read, low, more⟩ :=
    Grammar.operators_ok done
  · simp [operatorCalls_stop stops]
  · have others := operators_answered more
    obtain ⟨value, rest, shorter⟩ := left
    subst follows
    rw [operatorCalls_step kind strong single read low, List.forall_mem_cons]
    exact ⟨⟨right, read⟩, others⟩
termination_by left.rest.length
decreasing_by
  rw [follows]
  exact Nat.lt_succ_of_lt right.shorter

theorem calls_answered {depth : Nat} {c : Call} {r : Reading Sized c.tokens}
    (done : nested (depth + 1) c.power c.tokens = .ok r) :
    ∀ d ∈ calls (nested depth) c, d.Answered (nested depth) := by
  obtain ⟨power, tokens⟩ := c
  cases tokens with
  | nil => cases done
  | cons first ts =>
    rw [Grammar.nested_succ] at done
    split at done
    · cases done
    · next left read =>
      simp only [calls, read, List.forall_mem_append]
      exact ⟨primary_answered read, operators_answered done⟩

theorem arguments_alike {rule other : Rule} {openedAt : Nat} {ts : List Token}
    {r : Reading (List ParsedExpr × Nat) ts} (done : arguments rule openedAt ts = .ok r)
    (alike : ∀ c ∈ listCalls (rule 0) ts, c.Alike rule other) :
    arguments other openedAt ts = .ok r ∧ listCalls (other 0) ts = listCalls (rule 0) ts := by
  obtain ⟨⟨arg, after, shorter⟩, t, rest, read, follows, last⟩ := arguments_ok done
  dsimp only at follows
  subst follows
  obtain ⟨closes, -⟩ | ⟨comma, more, others, -⟩ := last
  · have only := listCalls_last read (by simp [closes])
    rw [only, List.forall_mem_singleton] at alike
    have reread := alike.trans read
    refine ⟨?_, by rw [only, listCalls_last reread (by simp [closes])]⟩
    rw [arguments, read] at done
    rw [arguments, reread]
    simpa [closes] using done
  · have less : rest.length < ts.length := Nat.lt_of_succ_lt shorter
    have first := listCalls_comma read rfl comma
    rw [first, List.forall_mem_cons] at alike
    have reread := alike.1.trans read
    obtain ⟨again, same⟩ := arguments_alike others alike.2
    refine ⟨?_, by rw [first, listCalls_comma reread rfl comma, same]⟩
    rw [arguments, read] at done
    rw [arguments, reread]
    simpa [comma, others, again] using done
termination_by ts.length

theorem primary_alike {rule other : Rule} {first : Token} {ts : List Token}
    {r : Reading Sized (first :: ts)} (done : primary rule first ts = .ok r)
    (alike : ∀ c ∈ primaryCalls rule first ts, c.Alike rule other) :
    primary other first ts = .ok r ∧ primaryCalls other first ts = primaryCalls rule first ts := by
  unfold primary at done ⊢
  unfold primaryCalls at alike ⊢
  split at done
  · next is => simpa [is] using done
  · next is => simpa [is] using done
  · next is => simpa [is] using done
  · next is =>
    obtain ⟨opening, t, rest, rfl, opens, inside⟩ := call_ok done
    simp only [is, call, opens, if_true] at done alike ⊢
    by_cases closes : t.kind = .closeParen
    · simpa [closes] using done
    · have proper : t.kind ≠ .eof := fun ends => by simp [ends] at done
      obtain ⟨closed, -⟩ | ⟨args, read, -⟩ := inside
      · exact absurd closed closes
      simp only [closes, proper, or_self, if_false, read] at done alike ⊢
      obtain ⟨again, same⟩ := arguments_alike read alike
      rw [again]
      exact ⟨done, same⟩
  · next is =>
    obtain ⟨⟨inner, after, shorter⟩, t, read, -⟩ := parenthesized_ok done
    have reread : other 0 ts = .ok ⟨inner, after, shorter⟩ :=
      (alike ⟨0, ts⟩ (by simp [is])).trans read
    unfold parenthesized at done ⊢
    simpa [is, read, reread] using done
  · next is =>
    split at done
    · cases done
    · next operand read =>
      have reread : other BinaryOperator.notPower ts = .ok operand :=
        (alike ⟨BinaryOperator.notPower, ts⟩ (by simp [is])).trans read
      simpa [is, reread] using done
  · cases done

theorem operators_alike {rule other : Rule} {power : Nat} {compared : Bool} {input : List Token}
    {left result : Reading Sized input} (done : operators rule power compared left = .ok result)
    (alike : ∀ c ∈ operatorCalls rule power compared left, c.Alike rule other) :
    operators other power compared left = .ok result ∧
      operatorCalls other power compared left = operatorCalls rule power compared left := by
  obtain ⟨rfl, stops⟩ | ⟨t, ts, op, right, less, follows, kind, strong, single, read, low, more⟩ :=
    Grammar.operators_ok done
  · exact ⟨Grammar.operators_stop stops, by rw [operatorCalls_stop stops, operatorCalls_stop stops]⟩
  · have others := @operators_alike rule other _ _ _ _ _ more
    obtain ⟨value, rest, shorter⟩ := left
    subst follows
    rw [operatorCalls_step kind strong single read low, List.forall_mem_cons] at alike
    have reread := alike.1.trans read
    obtain ⟨again, same⟩ := others alike.2
    rw [operators_step kind strong single reread low, operatorCalls_step kind strong single read low,
      operatorCalls_step kind strong single reread low]
    exact ⟨again, by rw [same]⟩
termination_by left.rest.length
decreasing_by
  rw [follows]
  exact Nat.lt_succ_of_lt right.shorter

theorem nested_alike {depth limit : Nat} {c : Call} {r : Reading Sized c.tokens}
    (done : nested (depth + 1) c.power c.tokens = .ok r)
    (alike : ∀ d ∈ calls (nested depth) c, d.Alike (nested depth) (nested limit)) :
    nested (limit + 1) c.power c.tokens = .ok r ∧
      calls (nested limit) c = calls (nested depth) c := by
  obtain ⟨power, tokens⟩ := c
  cases tokens with
  | nil => cases done
  | cons first ts =>
    rw [Grammar.nested_succ] at done ⊢
    split at done
    · cases done
    · next left read =>
      simp only [calls, read, List.forall_mem_append] at alike ⊢
      obtain ⟨again, same⟩ := primary_alike read alike.1
      obtain ⟨result, others⟩ := operators_alike done alike.2
      rw [again, same]
      exact ⟨result, congrArg _ others⟩

theorem deepest_le {depth : Nat} {c : Call} (answered : c.Answered (nested depth)) :
    deepest depth c ≤ depth := by
  induction depth generalizing c with
  | zero =>
    obtain ⟨r, done⟩ := answered
    obtain ⟨power, _ | _⟩ := c <;> cases done
  | succ depth ih =>
    obtain ⟨r, done⟩ := answered
    refine Nat.succ_le_succ (List.max_le_of_forall_le _ _ fun n member => ?_)
    obtain ⟨d, made, rfl⟩ := List.mem_map.1 member
    exact ih (calls_answered done d made)

/-- A call that has been answered is answered in the same way with any limit that leaves room for the
calls that are then active at once. -/
theorem nested_of_deepest_le {depth limit : Nat} {c : Call} {r : Reading Sized c.tokens}
    (done : nested depth c.power c.tokens = .ok r) (room : deepest depth c ≤ limit) :
    nested limit c.power c.tokens = .ok r ∧ deepest limit c = deepest depth c := by
  induction depth generalizing c limit with
  | zero => obtain ⟨power, _ | _⟩ := c <;> cases done
  | succ depth ih =>
    cases limit with
    | zero => cases room
    | succ limit =>
      have inner : ∀ d ∈ calls (nested depth) c,
          d.Alike (nested depth) (nested limit) ∧ deepest limit d = deepest depth d := by
        intro d made
        obtain ⟨s, answer⟩ := calls_answered done d made
        have less : deepest depth d ≤ limit :=
          (List.le_max_of_le (List.mem_map_of_mem made) (Nat.le_refl _)).trans (Nat.le_of_succ_le_succ room)
        obtain ⟨again, same⟩ := ih answer less
        exact ⟨again.trans answer.symm, same⟩
      obtain ⟨again, same⟩ := nested_alike done fun d made => (inner d made).1
      refine ⟨again, ?_⟩
      rw [deepest, deepest, same, List.map_congr_left fun d made => (inner d made).2]

theorem answered_iff_deepest_le {depth : Nat} {c : Call} (answered : c.Answered (nested depth))
    (limit : Nat) : c.Answered (nested limit) ↔ deepest depth c ≤ limit := by
  obtain ⟨r, done⟩ := answered
  constructor
  · rintro ⟨s, other⟩
    have most := deepest_le ⟨s, other⟩
    have least := deepest_le ⟨r, done⟩
    have left := (nested_of_deepest_le done (least.trans (Nat.le_max_left depth limit))).2
    have right := (nested_of_deepest_le other (most.trans (Nat.le_max_right depth limit))).2
    rw [← left, right]
    exact most
  · intro room
    exact ⟨r, (nested_of_deepest_le done room).1⟩

def clauseCalls (clause : Clause) (ts : List Token) : List Call :=
  if isBlank ts then []
  else match clause with
    | .filter => [⟨0, ts⟩]
    | .compute => listCalls computeItem ts
    | .orderBy => listCalls orderItem ts

def activeCalls (clause : Clause) (ts : List Token) : Nat :=
  ((clauseCalls clause ts).map (deepest nestingLimit)).foldr max 0

theorem items_answered {item : (ts : List Token) → Except Stop (Reading ParsedExpr ts)}
    (starts : ∀ {ts} {r : Reading ParsedExpr ts}, item ts = .ok r → ∃ value, expression ts = .ok value)
    {ts : List Token} {es : List ParsedExpr} (done : items item ts = .ok es) :
    ∀ c ∈ listCalls item ts, c.Answered (nested nestingLimit) := by
  obtain ⟨first, read, made⟩ := items_ok done
  obtain ⟨-, last⟩ | ⟨t, rest, more, follows, comma, others, -⟩ := made
  · rw [listCalls_last read fun t member => by simp [last t member], List.forall_mem_singleton]
    exact starts read
  · have less := first.length_behind follows
    rw [listCalls_comma read follows comma, List.forall_mem_cons]
    exact ⟨starts read, items_answered starts others⟩
termination_by ts.length

theorem clause_answered {clause : Clause} {ts : List Token} {es : List ParsedExpr}
    (done : Parser.clause clause ts = .ok es) :
    ∀ c ∈ clauseCalls clause ts, c.Answered (nested nestingLimit) := by
  unfold clauseCalls
  split
  · simp
  · cases clause with
    | filter =>
      obtain ⟨e, read, rfl⟩ := Outcome.map_eq_ok.1 done
      obtain ⟨root, first, -⟩ := filter_ok read
      simpa using ⟨root, first⟩
    | compute =>
      refine items_answered (fun read => ?_) (compute_ok done)
      obtain ⟨value, _, _, first, -⟩ := computeItem_ok read
      exact ⟨value, first⟩
    | orderBy =>
      refine items_answered (fun read => ?_) (orderBy_ok done)
      obtain ⟨value, first, -⟩ := orderItem_ok read
      exact ⟨value, first⟩

theorem activeCalls_le {clause : Clause} {ts : List Token} {es : List ParsedExpr}
    (done : Parser.clause clause ts = .ok es) : activeCalls clause ts ≤ nestingLimit := by
  refine List.max_le_of_forall_le _ _ fun n member => ?_
  obtain ⟨c, made, rfl⟩ := List.mem_map.1 member
  exact deepest_le (clause_answered done c made)

end Parser

end ClauseSql
