import ClauseSql.Expr.Parser
import ClauseSql.Proofs.Grammar

/-! The parser reads whatever the grammar derives. A frame of the parser reads a phrase of the rank
that belongs to its power. What it has read so far is the left operand of the operators that follow,
so one frame takes in a whole chain of left operands, and opens a new frame for each right operand.
It gives up exactly where the derivation leaves the limits. -/
namespace ClauseSql.Grammar

open ClauseSql.Parser

/-- The least power with which an operator of the rank binds to the left; no operator has the powers
of `not` and of a primary phrase. -/
def Rank.power : Rank → Nat
  | or => 10
  | and => 20
  | unary => 30
  | comparison => 40
  | sum => 50
  | product => 60
  | primary => 70

theorem Rank.power_le_next (rank : Rank) : rank.power ≤ rank.next.power := by
  cases rank <;> decide

@[simp] theorem powers_fst (op : BinaryOperator) : op.powers.1 = (Rank.of op).power := by
  rcases op with _ | (_ | _) | (_ | _ | _ | _ | _) <;> rfl

@[simp] theorem powers_snd_rank (op : BinaryOperator) :
    op.powers.2 = (Rank.of op).power + 1 := by
  rw [BinaryOperator.powers_snd, powers_fst]

theorem Rank.of_power_ne (op : BinaryOperator) : (Rank.of op).power ≠ Rank.unary.power := by
  rcases op with _ | (_ | _) | (_ | _ | _ | _ | _) <;> simp [of, power]

theorem Rank.of_lt_right (op : BinaryOperator) :
    (Rank.of op).power + 1 ≤ (Rank.right op).power := by
  rcases op with _ | (_ | _) | (_ | _ | _ | _ | _) <;> simp [of, right, next, power]

theorem Rank.of_le_left (op : BinaryOperator) : (Rank.of op).power ≤ (Rank.left op).power := by
  rcases op with _ | (_ | _) | (_ | _ | _ | _ | _) <;> simp [of, left, power]

def Stops (power : Nat) : List Token → Prop
  | [] => True
  | t :: _ => ∀ op, t.kind = .operator op → (Rank.of op).power < power

theorem Stops.mono {p q : Nat} {ts : List Token} (stops : Stops p ts) (le : p ≤ q) : Stops q ts := by
  cases ts with
  | nil => trivial
  | cons t ts => exact fun op kind => Nat.lt_of_lt_of_le (stops op kind) le

theorem Stops.of_kind {power : Nat} {t : Token} {ts : List Token}
    (other : ∀ op, t.kind ≠ .operator op) : Stops power (t :: ts) :=
  fun op kind => absurd kind (other op)

theorem operators_stop {rule : Rule} {power : Nat} {compared : Bool} {input : List Token}
    {left : Reading Sized input} (stops : Stops power left.rest) :
    operators rule power compared left = .ok left := by
  unfold operators
  split
  · rfl
  · next t ts follows =>
    rw [follows] at stops
    split
    · next op kind => rw [if_pos (by simpa using stops op kind)]
    · rfl

def Refused {α : Type} (result : Except Stop α) : Prop :=
  ∃ position built, result = .error ⟨.tooDeep position, built⟩

def Within (depth n height : Nat) : Prop := n ≤ depth ∧ height ≤ nestingLimit

def Reaches (depth power : Nat) (compared : Bool) (input : List Token) (e : ParsedExpr)
    (rest : List Token) : Prop :=
  ∃ below, depth = below + 1 ∧ ∃ shorter,
    nested depth power input =
      operators (nested below) power compared ⟨⟨e, e.height⟩, rest, shorter⟩

theorem Reaches.finish {depth power : Nat} {compared : Bool} {input rest : List Token}
    {e : ParsedExpr} (reaches : Reaches depth power compared input e rest)
    (stops : Stops power rest) :
    ∃ shorter, nested depth power input = .ok ⟨⟨e, e.height⟩, rest, shorter⟩ := by
  obtain ⟨below, -, shorter, equal⟩ := reaches
  exact ⟨shorter, by rw [equal, operators_stop stops]⟩

theorem nested_succ (below power : Nat) (first : Token) (ts : List Token) :
    nested (below + 1) power (first :: ts) =
      match primary (nested below) first ts with
      | .error stop => .error stop
      | .ok left => operators (nested below) power false left := rfl

theorem nested_primary {below power : Nat} {first : Token} {ts input rest : List Token}
    {e : ParsedExpr} {shorter : rest.length < (first :: ts).length} (whole : input = first :: ts)
    (read : primary (nested below) first ts = .ok ⟨⟨e, e.height⟩, rest, shorter⟩) :
    Reaches (below + 1) power false input e rest := by
  subst whole
  refine ⟨below, rfl, shorter, ?_⟩
  rw [nested_succ, read]

theorem nested_refused {depth power : Nat} {first : Token} {ts input : List Token}
    (whole : input = first :: ts)
    (refused : ∀ below, depth = below + 1 → Refused (primary (nested below) first ts)) :
    Refused (nested depth power input) := by
  subst whole
  cases depth with
  | zero => exact ⟨_, _, rfl⟩
  | succ below =>
    obtain ⟨position, built, equal⟩ := refused below rfl
    exact ⟨position, built, by rw [nested_succ, equal]⟩

/-- What a frame of the given depth and power makes of a phrase with a given derivation. A
comparison has been read only by a frame whose phrase is no sum, product or primary. -/
structure Followed (rank : Rank) (depth power n : Nat) (input : List Token) (e : ParsedExpr)
    (rest : List Token) : Prop where
  reaches : Within depth n e.height →
    ∃ compared, (Rank.comparison.power < rank.power → compared = false) ∧
      Reaches depth power compared input e rest
  refused : ¬ Within depth n e.height → Refused (nested depth power input)

theorem Followed.finish {rank : Rank} {depth power n : Nat} {input rest : List Token}
    {e : ParsedExpr} (followed : Followed rank depth power n input e rest)
    (within : Within depth n e.height) (stops : Stops power rest) :
    ∃ shorter, nested depth power input = .ok ⟨⟨e, e.height⟩, rest, shorter⟩ := by
  obtain ⟨compared, -, reaches⟩ := followed.reaches within
  exact reaches.finish stops

theorem followed_leaf {depth power : Nat} {t : Token} {input rest : List Token} {e : ParsedExpr}
    (whole : input = t :: rest) (low : e.height = 1)
    (read : ∀ rule, primary rule t rest = .ok ⟨⟨e, 1⟩, rest, Nat.lt_succ_self _⟩) :
    Followed .primary depth power 1 input e rest := by
  constructor
  · rintro ⟨deep, -⟩
    obtain ⟨below, rfl⟩ := Nat.exists_eq_add_of_le' deep
    have same := read (nested below)
    rw [← low] at same
    exact ⟨false, fun _ => rfl, nested_primary whole same⟩
  · intro outside
    refine nested_refused whole fun below equal => absurd ⟨?_, ?_⟩ outside
    · omega
    · simp [low, nestingLimit]

theorem followed_group {depth power n : Nat} {opening closing : Token} {ts input rest : List Token}
    {e : ParsedExpr} (opens : opening.kind = .openParen) (closes : closing.kind = .closeParen)
    (whole : input = opening :: (ts ++ closing :: rest))
    (inner : ∀ below, Followed .or below 0 n (ts ++ closing :: rest) e (closing :: rest)) :
    Followed .primary depth power (n + 1) input e rest := by
  have stops : Stops 0 (closing :: rest) := .of_kind (by simp [closes])
  constructor
  · rintro ⟨deep, low⟩
    obtain ⟨below, rfl⟩ := Nat.exists_eq_add_of_le' (Nat.le_trans (Nat.le_add_left 1 n) deep)
    obtain ⟨shorter, read⟩ := (inner below).finish ⟨by omega, low⟩ stops
    have behind : rest.length < (opening :: (ts ++ closing :: rest)).length := by
      simp only [List.length_cons, List.length_append]
      omega
    have same : primary (nested below) opening (ts ++ closing :: rest) =
        .ok ⟨⟨e, e.height⟩, rest, behind⟩ := by
      simp [primary, opens, parenthesized, read, closes]
    exact ⟨false, fun _ => rfl, nested_primary whole same⟩
  · intro outside
    refine nested_refused whole fun below equal => ?_
    obtain ⟨position, built, refused⟩ := (inner below).refused fun within =>
      outside ⟨by have := within.1; omega, within.2⟩
    exact ⟨position, built, by simp [primary, opens, parenthesized, refused]⟩

theorem followed_not {depth power n : Nat} {t : Token} {ts input rest : List Token} {e : ParsedExpr}
    (kind : t.kind = .not) (whole : input = t :: (ts ++ rest)) (stops : Stops 30 rest)
    (inner : ∀ below, Followed .unary below 30 n (ts ++ rest) e rest) :
    Followed .unary depth power (n + 1) input (.not e) rest := by
  constructor
  · rintro ⟨deep, low⟩
    obtain ⟨below, rfl⟩ := Nat.exists_eq_add_of_le' (Nat.le_trans (Nat.le_add_left 1 n) deep)
    simp only [Expr.height] at low
    obtain ⟨shorter, read⟩ := (inner below).finish ⟨by omega, by omega⟩ stops
    have same : primary (nested below) t (ts ++ rest) =
        .ok ⟨⟨.not e, (Expr.not e).height⟩, rest, Nat.lt_succ_of_lt shorter⟩ := by
      simp [primary, kind, BinaryOperator.notPower, read, bounded, Reading.map, Reading.behind,
        Expr.height, Nat.not_lt.mpr low]
    exact ⟨false, fun _ => rfl, nested_primary whole same⟩
  · intro outside
    refine nested_refused whole fun below equal => ?_
    by_cases within : Within below n e.height
    · obtain ⟨shorter, read⟩ := (inner below).finish within stops
      have high : nestingLimit < e.height + 1 := by
        simp only [Within, Expr.height, not_and] at outside
        have := outside (by have := within.1; omega)
        omega
      refine ⟨t.start, [e], ?_⟩
      simp [primary, kind, BinaryOperator.notPower, read, bounded, Reading.map, Reading.behind, high]
    · obtain ⟨position, built, refused⟩ := (inner below).refused within
      exact ⟨position, built, by simp [primary, kind, BinaryOperator.notPower, refused]⟩

structure FollowedAll (depth n openedAt : Nat) (input : List Token) (es : List ParsedExpr)
    (rest : List Token) : Prop where
  reads : Within depth n (Expr.heightOfAll es) → ∃ shorter,
    arguments (nested depth) openedAt input = .ok ⟨(es, Expr.heightOfAll es), rest, shorter⟩
  refused : ¬ Within depth n (Expr.heightOfAll es) →
    Refused (arguments (nested depth) openedAt input)

theorem followedAll_one {depth n openedAt : Nat} {closing : Token} {input rest : List Token}
    {e : ParsedExpr} (closes : closing.kind = .closeParen)
    (phrase : Followed .or depth 0 n input e (closing :: rest)) :
    FollowedAll depth n openedAt input [e] rest := by
  have stops : Stops 0 (closing :: rest) := .of_kind (by simp [closes])
  constructor
  · intro within
    obtain ⟨shorter, read⟩ := phrase.finish (by simpa [Expr.heightOfAll] using within) stops
    refine ⟨Nat.lt_of_succ_lt shorter, ?_⟩
    rw [arguments, read]
    simp [closes, Expr.heightOfAll]
  · intro outside
    obtain ⟨position, built, refused⟩ := phrase.refused (by simpa [Expr.heightOfAll] using outside)
    exact ⟨position, built, by rw [arguments, refused]⟩

theorem followedAll_more {depth n m openedAt : Nat} {t : Token} {input us rest : List Token}
    {e : ParsedExpr} {es : List ParsedExpr} (kind : t.kind = .comma)
    (phrase : Followed .or depth 0 n input e (t :: us))
    (more : FollowedAll depth m openedAt us es rest) :
    FollowedAll depth (max n m) openedAt input (e :: es) rest := by
  have stops : Stops 0 (t :: us) := .of_kind (by simp [kind])
  constructor
  · rintro ⟨deep, low⟩
    simp only [Expr.heightOfAll] at low
    obtain ⟨shorter, read⟩ := phrase.finish ⟨by omega, by omega⟩ stops
    obtain ⟨less, others⟩ := more.reads ⟨by omega, by omega⟩
    refine ⟨Nat.lt_trans less (Nat.lt_of_succ_lt shorter), ?_⟩
    rw [arguments, read]
    simp [kind, others, Expr.heightOfAll]
  · intro outside
    by_cases within : Within depth n e.height
    · obtain ⟨shorter, read⟩ := phrase.finish within stops
      obtain ⟨position, built, refused⟩ := more.refused fun other => outside
        ⟨Nat.max_le.mpr ⟨within.1, other.1⟩, Nat.max_le.mpr ⟨within.2, other.2⟩⟩
      refine ⟨position, e :: built, ?_⟩
      rw [arguments, read]
      simp [kind, refused, Stop.after]
    · obtain ⟨position, built, refused⟩ := phrase.refused within
      exact ⟨position, built, by rw [arguments, refused]⟩

theorem followed_emptyCall {depth power : Nat} {name opening closing : Token}
    {input rest : List Token} (calls : name.kind = .functionName) (opens : opening.kind = .openParen)
    (closes : closing.kind = .closeParen) (whole : input = name :: opening :: closing :: rest) :
    Followed .primary depth power 1 input (.call name.span []) rest := by
  constructor
  · rintro ⟨deep, low⟩
    obtain ⟨below, rfl⟩ := Nat.exists_eq_add_of_le' deep
    have same : primary (nested below) name (opening :: closing :: rest) =
        .ok ⟨⟨.call name.span [], (Expr.call name.span [] : ParsedExpr).height⟩, rest,
          by simp only [List.length_cons]; omega⟩ := by
      simp [primary, calls, call, opens, closes, Expr.height, Expr.heightOfAll]
    exact ⟨false, fun _ => rfl, nested_primary whole same⟩
  · intro outside
    refine nested_refused whole fun below equal => absurd ⟨?_, ?_⟩ outside
    · omega
    · simp [Expr.height, Expr.heightOfAll, nestingLimit]

theorem followed_call {depth power n : Nat} {name opening t : Token} {us input rest : List Token}
    {es : List ParsedExpr} (calls : name.kind = .functionName) (opens : opening.kind = .openParen)
    (first : Opens t) (whole : input = name :: opening :: t :: us)
    (args : ∀ below, FollowedAll below n opening.start (t :: us) es rest) :
    Followed .primary depth power (n + 1) input (.call name.span es) rest := by
  constructor
  · rintro ⟨deep, low⟩
    obtain ⟨below, rfl⟩ := Nat.exists_eq_add_of_le' (Nat.le_trans (Nat.le_add_left 1 n) deep)
    simp only [Expr.height] at low
    obtain ⟨shorter, read⟩ := (args below).reads ⟨by omega, by omega⟩
    have same : primary (nested below) name (opening :: t :: us) =
        .ok ⟨⟨.call name.span es, (Expr.call name.span es).height⟩, rest,
          Nat.lt_succ_of_lt (Nat.lt_succ_of_lt shorter)⟩ := by
      simp [primary, calls, call, opens, first.1, first.2, read, bounded, Expr.height,
        Nat.not_lt.mpr low]
    exact ⟨false, fun _ => rfl, nested_primary whole same⟩
  · intro outside
    refine nested_refused whole fun below equal => ?_
    by_cases within : Within below n (Expr.heightOfAll es)
    · obtain ⟨shorter, read⟩ := (args below).reads within
      have high : nestingLimit < Expr.heightOfAll es + 1 := by
        simp only [Within, Expr.height, not_and] at outside
        have := outside (by have := within.1; omega)
        omega
      refine ⟨name.start, es, ?_⟩
      simp [primary, calls, call, opens, first.1, first.2, read, bounded, high]
    · obtain ⟨position, built, refused⟩ := (args below).refused within
      refine ⟨position, built, ?_⟩
      simp [primary, calls, call, opens, first.1, first.2, refused]

theorem Rank.left_of_comparison {op : BinaryOperator} (comparison : op.isComparison) :
    Rank.comparison.power < (Rank.left op).power := by
  cases op <;> simp_all [BinaryOperator.isComparison, left, power]

theorem Rank.of_not_comparison {op : BinaryOperator}
    (strong : Rank.comparison.power < (Rank.of op).power) : op.isComparison = false := by
  rcases op with _ | (_ | _) | (_ | _ | _ | _ | _) <;>
    simp_all [BinaryOperator.isComparison, of, power]

theorem unchained {op : BinaryOperator} {compared : Bool}
    (free : Rank.comparison.power < (Rank.left op).power → compared = false) :
    (op.isComparison && compared) = false := by
  cases comparison : op.isComparison with
  | false => rfl
  | true => simpa using free (Rank.left_of_comparison comparison)

theorem followed_binary {depth power n m : Nat} {op : BinaryOperator} {t : Token}
    {us input rest : List Token} {l r : ParsedExpr} (kind : t.kind = .operator op)
    (loose : power ≤ (Rank.of op).power) (stops : Stops ((Rank.of op).power + 1) rest)
    (left : Followed (.left op) depth power n input l (t :: (us ++ rest)))
    (right : ∀ below, Followed (.right op) below ((Rank.of op).power + 1) m (us ++ rest) r rest) :
    Followed (.of op) depth power (max n (m + 1)) input (.binary op l r) rest := by
  constructor
  · rintro ⟨deep, low⟩
    simp only [Expr.height] at low
    obtain ⟨compared, free, below, rfl, shorter, reached⟩ :=
      left.reaches ⟨by omega, by omega⟩
    obtain ⟨less, read⟩ := (right below).finish ⟨by omega, by omega⟩ stops
    refine ⟨compared || op.isComparison, ?_, below, rfl, ?_, ?_⟩
    · intro strong
      have plain := Rank.of_not_comparison strong
      simpa [plain] using free (Nat.lt_of_lt_of_le strong (Rank.of_le_left op))
    · simp only [List.length_cons, List.length_append] at shorter
      omega
    · rw [reached, operators]
      simp [kind, Nat.not_lt.mpr loose, unchained free, read, Nat.not_lt.mpr low, Expr.height]
  · intro outside
    by_cases within : Within depth n l.height
    · obtain ⟨compared, free, below, rfl, shorter, reached⟩ := left.reaches within
      by_cases other : Within below m r.height
      · obtain ⟨less, read⟩ := (right below).finish other stops
        have high : nestingLimit < max l.height r.height + 1 := by
          simp only [Within, Expr.height, not_and] at outside
          have := outside (by have := within.1; have := other.1; omega)
          omega
        refine ⟨t.start, [l, r], ?_⟩
        rw [reached, operators]
        simp [kind, Nat.not_lt.mpr loose, unchained free, read, high]
      · obtain ⟨position, built, refused⟩ := (right below).refused other
        refine ⟨position, l :: built, ?_⟩
        rw [reached, operators]
        simp [kind, Nat.not_lt.mpr loose, unchained free, refused, Stop.after]
    · exact left.refused within

theorem Followed.weaken {rank : Rank} {depth power n : Nat} {input rest : List Token}
    {e : ParsedExpr} (followed : Followed rank.next depth power n input e rest) :
    Followed rank depth power n input e rest := by
  refine ⟨fun within => ?_, followed.refused⟩
  obtain ⟨compared, free, reaches⟩ := followed.reaches within
  exact ⟨compared, fun strong => free (Nat.lt_of_lt_of_le strong rank.power_le_next), reaches⟩

mutual
/-- A frame whose power allows the rank follows every derivation, whatever comes after the phrase,
as long as no operator there belongs to the phrase's last operand. -/
theorem Derives.followed {rank : Rank} {ts : List Token} {e : ParsedExpr} {n depth power : Nat}
    {input rest : List Token} : Derives rank ts e n → input = ts ++ rest → power ≤ rank.power →
      Stops (rank.power + 1) rest → Followed rank depth power n input e rest
  | .stronger phrase, whole, loose, stops => by
    have more := rank.power_le_next
    exact (phrase.followed whole (by omega) (stops.mono (by omega))).weaken
  | @Derives.binary op _ _ _ _ _ _ _ kind left right, whole, loose, stops => by
    have lower := Rank.of_le_left op
    have upper := Rank.of_lt_right op
    refine followed_binary kind loose stops (left.followed (by simpa using whole) (by omega) ?_)
      fun below => right.followed rfl upper (stops.mono (by omega))
    intro other same
    rw [kind] at same
    cases same
    omega
  | .not kind phrase, whole, loose, stops => by
    have ends : Stops 30 rest := by
      cases rest with
      | nil => trivial
      | cons t rest =>
        intro op same
        have low := stops op same
        have other := Rank.of_power_ne op
        simp only [Rank.power] at low other ⊢
        omega
    exact followed_not kind whole ends fun below => phrase.followed rfl (Nat.le_refl _) stops
  | .literal kind, whole, loose, stops =>
    followed_leaf whole rfl fun rule => by simp [primary, kind]
  | .path kind, whole, loose, stops =>
    followed_leaf whole rfl fun rule => by rcases kind with kind | kind <;> simp [primary, kind]
  | .emptyCall calls opens closes, whole, loose, stops =>
    followed_emptyCall calls opens closes whole
  | .call calls opens closes args, whole, loose, stops => by
    obtain ⟨t, us, begins, first⟩ := args.opens
    exact followed_call calls opens first (by simpa [begins] using whole) fun below =>
      args.followed closes (by simp [begins])
  | .group opens closes phrase, whole, loose, stops => by
    refine followed_group opens closes (by simpa using whole) fun below => ?_
    exact phrase.followed rfl (Nat.zero_le _) (.of_kind (by simp [closes]))
theorem DerivesAll.followed {ts : List Token} {es : List ParsedExpr} {n depth openedAt : Nat}
    {closing : Token} {input rest : List Token} : DerivesAll ts es n →
      closing.kind = .closeParen → input = ts ++ closing :: rest →
      FollowedAll depth n openedAt input es rest
  | .one phrase, closes, whole => by
    have stops : Stops (Rank.or.power + 1) (closing :: rest) := .of_kind (by simp [closes])
    exact followedAll_one closes (phrase.followed whole (Nat.zero_le _) stops)
  | .more kind phrase others, closes, whole =>
    followedAll_more kind
      (phrase.followed (by simpa using whole) (Nat.zero_le _) (.of_kind (by simp [kind])))
      (others.followed closes rfl)
end

end ClauseSql.Grammar
