import ClauseSql.Expr.Basic

/-! The grammar of expressions in seven ranks, from `or`, which binds most weakly, to what needs no
operator. A derivation takes a list of tokens to an expression. It also counts how deep its phrases
lie inside one another: a right operand, a negated phrase, an argument or a phrase in parentheses
lies one deeper than the phrase around it, a left operand does not. -/
namespace ClauseSql

mutual
def Expr.height {σ β : Type} : Expr σ β → Nat
  | .literal _ _ => 1
  | .path _ => 1
  | .not operand => operand.height + 1
  | .binary _ left right => max left.height right.height + 1
  | .call _ args => Expr.heightOfAll args + 1
  | .named value _ => value.height + 1
  | .ordered value _ => value.height + 1
  | .broken _ => 1
  | .brokenCall _ _ => 1
def Expr.heightOfAll {σ β : Type} : List (Expr σ β) → Nat
  | [] => 0
  | e :: es => max e.height (Expr.heightOfAll es)
end

def Expr.bare {σ β : Type} : Expr σ β → Expr σ β
  | .named value _ => value
  | .ordered value _ => value
  | e => e

namespace Grammar

inductive Rank where
  | or
  | and
  | unary
  | comparison
  | sum
  | product
  | primary
  deriving DecidableEq, Repr

namespace Rank

def next : Rank → Rank
  | or => and
  | and => unary
  | unary => comparison
  | comparison => sum
  | sum => product
  | product => primary
  | primary => primary

def of : BinaryOperator → Rank
  | .connective .or => or
  | .connective .and => and
  | .comparison _ => comparison
  | .arithmetic .add => sum
  | .arithmetic .sub => sum
  | .arithmetic .mul => product
  | .arithmetic .div => product
  | .arithmetic .mod => product

/-- What may stand on the left of an operator: a phrase of the same rank, so that equal ranks group
to the left. A comparison takes no comparison. -/
def left : BinaryOperator → Rank
  | .comparison _ => sum
  | op => of op

def right (op : BinaryOperator) : Rank := (of op).next

end Rank

mutual
/-- `Derives rank ts e n`: the tokens form a phrase of the rank that stands for `e`, and `n` is the
depth of the derivation. -/
inductive Derives : Rank → List Token → ParsedExpr → Nat → Prop
  | stronger {rank : Rank} {ts : List Token} {e : ParsedExpr} {n : Nat} :
      Derives rank.next ts e n → Derives rank ts e n
  | binary {op : BinaryOperator} {t : Token} {ts us : List Token} {l r : ParsedExpr} {n m : Nat} :
      t.kind = .operator op → Derives (.left op) ts l n → Derives (.right op) us r m →
      Derives (.of op) (ts ++ t :: us) (.binary op l r) (max n (m + 1))
  | not {t : Token} {ts : List Token} {e : ParsedExpr} {n : Nat} :
      t.kind = .not → Derives .unary ts e n → Derives .unary (t :: ts) (.not e) (n + 1)
  | literal {t : Token} {kind : LiteralKind} :
      t.kind = .literal kind → Derives .primary [t] (.literal kind t.span) 1
  | path {t : Token} :
      t.kind = .identifier ∨ t.kind = .path → Derives .primary [t] (.path t.span) 1
  | emptyCall {name opening closing : Token} :
      name.kind = .functionName → opening.kind = .openParen → closing.kind = .closeParen →
      Derives .primary [name, opening, closing] (.call name.span []) 1
  | call {name opening closing : Token} {ts : List Token} {es : List ParsedExpr} {n : Nat} :
      name.kind = .functionName → opening.kind = .openParen → closing.kind = .closeParen →
      DerivesAll ts es n →
      Derives .primary (name :: opening :: (ts ++ [closing])) (.call name.span es) (n + 1)
  /-- Parentheses leave no trace in the expression. -/
  | group {opening closing : Token} {ts : List Token} {e : ParsedExpr} {n : Nat} :
      opening.kind = .openParen → closing.kind = .closeParen → Derives .or ts e n →
      Derives .primary (opening :: (ts ++ [closing])) e (n + 1)
inductive DerivesAll : List Token → List ParsedExpr → Nat → Prop
  | one {ts : List Token} {e : ParsedExpr} {n : Nat} :
      Derives .or ts e n → DerivesAll ts [e] n
  | more {t : Token} {ts us : List Token} {e : ParsedExpr} {es : List ParsedExpr} {n m : Nat} :
      t.kind = .comma → Derives .or ts e n → DerivesAll us es m →
      DerivesAll (ts ++ t :: us) (e :: es) (max n m)
end

def Opens (t : Token) : Prop := t.kind ≠ .closeParen ∧ t.kind ≠ .eof

mutual
theorem Derives.opens {rank : Rank} {ts : List Token} {e : ParsedExpr} {n : Nat} :
    Derives rank ts e n → ∃ t us, ts = t :: us ∧ Opens t
  | .stronger phrase => phrase.opens
  | .binary _ left _ => by
    obtain ⟨t, us, rfl, opens⟩ := left.opens
    exact ⟨t, _, rfl, opens⟩
  | .not kind _ => ⟨_, _, rfl, by simp [Opens, kind]⟩
  | .literal kind => ⟨_, _, rfl, by simp [Opens, kind]⟩
  | .path kind => ⟨_, _, rfl, by rcases kind with kind | kind <;> simp [Opens, kind]⟩
  | .emptyCall kind _ _ => ⟨_, _, rfl, by simp [Opens, kind]⟩
  | .call kind _ _ _ => ⟨_, _, rfl, by simp [Opens, kind]⟩
  | .group kind _ _ => ⟨_, _, rfl, by simp [Opens, kind]⟩
theorem DerivesAll.opens {ts : List Token} {es : List ParsedExpr} {n : Nat} :
    DerivesAll ts es n → ∃ t us, ts = t :: us ∧ Opens t
  | .one phrase => phrase.opens
  | .more _ phrase _ => by
    obtain ⟨t, us, rfl, opens⟩ := phrase.opens
    exact ⟨t, _, rfl, opens⟩
end

mutual
theorem Derives.proper {rank : Rank} {ts : List Token} {e : ParsedExpr} {n : Nat} :
    Derives rank ts e n → ∀ t ∈ ts, t.kind ≠ .eof
  | .stronger phrase => phrase.proper
  | .binary kind left right => by
    simp only [List.mem_append, List.mem_cons]
    rintro t (member | rfl | member)
    · exact left.proper t member
    · simp [kind]
    · exact right.proper t member
  | .not kind phrase => by simpa [kind] using phrase.proper
  | .literal kind => by simp [kind]
  | .path kind => by rcases kind with kind | kind <;> simp [kind]
  | .emptyCall calls opens closes => by simp [calls, opens, closes]
  | .call calls opens closes args => by
    simpa [calls, opens, closes, or_imp, forall_and] using args.proper
  | .group opens closes phrase => by
    simpa [opens, closes, or_imp, forall_and] using phrase.proper
theorem DerivesAll.proper {ts : List Token} {es : List ParsedExpr} {n : Nat} :
    DerivesAll ts es n → ∀ t ∈ ts, t.kind ≠ .eof
  | .one phrase => phrase.proper
  | .more kind phrase others => by
    simp only [List.mem_append, List.mem_cons]
    rintro t (member | rfl | member)
    · exact phrase.proper t member
    · simp [kind]
    · exact others.proper t member
end

theorem Derives.bare_eq {rank : Rank} {ts : List Token} {e : ParsedExpr} {n : Nat} :
    Derives rank ts e n → e.bare = e
  | .stronger phrase => phrase.bare_eq
  | .binary _ _ _ => rfl
  | .not _ _ => rfl
  | .literal _ => rfl
  | .path _ => rfl
  | .emptyCall _ _ _ => rfl
  | .call _ _ _ _ => rfl
  | .group _ _ phrase => phrase.bare_eq

end Grammar

end ClauseSql
