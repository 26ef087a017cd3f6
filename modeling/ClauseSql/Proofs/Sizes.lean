import ClauseSql.Proofs.Lexing
import ClauseSql.Proofs.ParserExactness

/-! How large expressions get. Every node of a parsed expression has a token of its own, except that an
item of an order clause may stand without its direction; every token has a byte of its own. So a
clause has no more nodes than its source has bytes, and one. -/
namespace ClauseSql

mutual
def Expr.size {σ β : Type} : Expr σ β → Nat
  | .literal _ _ => 1
  | .path _ => 1
  | .not operand => operand.size + 1
  | .binary _ left right => left.size + right.size + 1
  | .call _ args => Expr.sizeOfAll args + 1
  | .named value _ => value.size + 1
  | .ordered value _ => value.size + 1
  | .broken _ => 1
  | .brokenCall _ _ => 1
def Expr.sizeOfAll {σ β : Type} : List (Expr σ β) → Nat
  | [] => 0
  | e :: es => e.size + Expr.sizeOfAll es
end

theorem Expr.size_pos {σ β : Type} (e : Expr σ β) : 0 < e.size := by
  cases e <;> simp [Expr.size]

namespace Parser

def worth (ts : List Token) : Nat := ts.countP fun t => t.kind != .eof

theorem worth_cons {t : Token} (proper : t.kind ≠ .eof) (ts : List Token) :
    worth (t :: ts) = worth ts + 1 := by
  simp [worth, proper]

theorem worth_le_cons (t : Token) (ts : List Token) : worth ts ≤ worth (t :: ts) := by
  rw [worth, worth, List.countP_cons]
  exact Nat.le_add_right _ _

/-- A rule that spends a token on every node. -/
def Thrifty (rule : Rule) : Prop :=
  ∀ power ts r, rule power ts = .ok r → r.value.expr.size + worth r.rest ≤ worth ts

theorem arguments_thrifty {rule : Rule} (thrifty : Thrifty rule) {openedAt : Nat} {ts : List Token}
    {r : Reading (List ParsedExpr × Nat) ts} (done : arguments rule openedAt ts = .ok r) :
    Expr.sizeOfAll r.value.1 + worth r.rest ≤ worth ts := by
  obtain ⟨arg, t, rest, read, follows, last⟩ := arguments_ok done
  have first := thrifty _ _ _ read
  have later := worth_le_cons t rest
  rw [follows] at first
  obtain ⟨-, value, same⟩ | ⟨-, more, others, value, same⟩ := last
  · simp only [value, same, Expr.sizeOfAll]
    omega
  · have less : rest.length < ts.length := by
      have shorter := arg.shorter
      rw [follows] at shorter
      exact Nat.lt_of_succ_lt shorter
    have inside := arguments_thrifty thrifty others
    simp only [value, same, Expr.sizeOfAll]
    omega
termination_by ts.length

theorem call_thrifty {rule : Rule} (thrifty : Thrifty rule) {name : Token} {ts : List Token}
    (calls : name.kind = .functionName) {r : Reading Sized (name :: ts)}
    (done : call rule name ts = .ok r) : r.value.expr.size + worth r.rest ≤ worth (name :: ts) := by
  rw [worth_cons (by simp [calls])]
  obtain ⟨opening, t, rest, rfl, -, inside⟩ := call_ok done
  have first := worth_le_cons opening (t :: rest)
  have second := worth_le_cons t rest
  obtain ⟨-, value, same⟩ | ⟨args, read, -, value, same⟩ := inside
  · simp only [value, same, Expr.size, Expr.sizeOfAll]
    omega
  · have inside := arguments_thrifty thrifty read
    simp only [value, same, Expr.size]
    omega

theorem parenthesized_thrifty {rule : Rule} (thrifty : Thrifty rule) {opening : Token}
    {ts : List Token} {r : Reading Sized (opening :: ts)}
    (done : parenthesized rule opening ts = .ok r) :
    r.value.expr.size + worth r.rest ≤ worth (opening :: ts) := by
  obtain ⟨inner, t, read, follows, -, value⟩ := parenthesized_ok done
  have inside := thrifty _ _ _ read
  have first := worth_le_cons opening ts
  have last := worth_le_cons t r.rest
  rw [follows] at inside
  rw [value]
  omega

theorem primary_thrifty {rule : Rule} (thrifty : Thrifty rule) {first : Token} {ts : List Token}
    {r : Reading Sized (first :: ts)} (done : primary rule first ts = .ok r) :
    r.value.expr.size + worth r.rest ≤ worth (first :: ts) := by
  have leaf (proper : first.kind ≠ .eof) : 1 + worth ts ≤ worth (first :: ts) := by
    rw [worth_cons proper, Nat.add_comm]
  unfold primary at done
  split at done
  · next kind is => cases done; exact leaf (by simp [is])
  · next is => cases done; exact leaf (by simp [is])
  · next is => cases done; exact leaf (by simp [is])
  · next is => exact call_thrifty thrifty is done
  · exact parenthesized_thrifty thrifty done
  · next is =>
    split at done
    · cases done
    · next operand read =>
      obtain ⟨rfl, -⟩ := bounded_ok done
      have inside := thrifty _ _ _ read
      have spent := leaf (by simp [is])
      simp only [Reading.map, Reading.behind, Expr.size]
      omega
  · cases done

theorem operators_thrifty {rule : Rule} (thrifty : Thrifty rule) {power : Nat} {compared : Bool}
    {input : List Token} {left result : Reading Sized input}
    (done : operators rule power compared left = .ok result)
    (before : left.value.expr.size + worth left.rest ≤ worth input) :
    result.value.expr.size + worth result.rest ≤ worth input := by
  obtain ⟨rfl, -⟩ | ⟨t, ts, op, right, less, follows, kind, -, -, read, -, more⟩ :=
    Grammar.operators_ok done
  · exact before
  · refine operators_thrifty thrifty more ?_
    have inside := thrifty _ _ _ read
    rw [follows, worth_cons (by simp [kind])] at before
    simp only [Expr.size]
    omega
termination_by left.rest.length
decreasing_by
  rw [follows]
  exact Nat.lt_succ_of_lt right.shorter

theorem nested_thrifty (depth : Nat) : Thrifty (nested depth) := by
  induction depth with
  | zero =>
    intro power ts r done
    cases ts <;> cases done
  | succ depth ih =>
    intro power ts r done
    cases ts with
    | nil => cases done
    | cons first rest =>
      rw [Grammar.nested_succ] at done
      split at done
      · cases done
      · next left read => exact operators_thrifty ih done (primary_thrifty ih read)

theorem filter_size {ts : List Token} {e : ParsedExpr} (done : filter ts = .ok e) :
    e.size ≤ worth ts := by
  obtain ⟨root, read, rfl, -⟩ := filter_ok done
  exact Nat.le_of_add_right_le (nested_thrifty _ _ _ _ read)

def ThriftyItem (item : (ts : List Token) → Except Stop (Reading ParsedExpr ts)) : Prop :=
  ∀ ts r, item ts = .ok r → 2 ≤ r.value.size ∧ r.value.size + worth r.rest ≤ worth ts + 1

theorem computeItem_thrifty : ThriftyItem computeItem := by
  intro ts r done
  obtain ⟨value, t, name, read, follows, -, -, made⟩ := computeItem_ok done
  have inside := nested_thrifty _ _ _ _ read
  have positive := value.value.expr.size_pos
  have first := worth_le_cons t (name :: r.rest)
  have second := worth_le_cons name r.rest
  rw [follows] at inside
  simp only [made, Expr.size]
  omega

theorem orderItem_thrifty : ThriftyItem orderItem := by
  intro ts r done
  obtain ⟨value, read, made⟩ := orderItem_ok done
  have inside := nested_thrifty _ _ _ _ read
  have positive := value.value.expr.size_pos
  obtain ⟨same, made⟩ | ⟨t, descending, follows, -, -, made⟩ := made
  · simp only [same, made, Expr.size]
    omega
  · have first := worth_le_cons t r.rest
    rw [follows] at inside
    simp only [made, Expr.size]
    omega

/-- The comma behind an item makes up for the node without a token, so at the end one is left. -/
theorem items_size {item : (ts : List Token) → Except Stop (Reading ParsedExpr ts)}
    (thrifty : ThriftyItem item) {ts : List Token} {es : List ParsedExpr}
    (done : items item ts = .ok es) :
    2 * es.length ≤ Expr.sizeOfAll es ∧ Expr.sizeOfAll es ≤ worth ts + 1 := by
  obtain ⟨first, read, last⟩ := items_ok done
  obtain ⟨two, spent⟩ := thrifty _ _ read
  obtain ⟨rfl, -⟩ | ⟨t, rest, more, follows, comma, others, rfl⟩ := last
  · simp only [List.length_singleton, Expr.sizeOfAll]
    omega
  · have less : rest.length < ts.length := by
      have shorter := first.shorter
      rw [follows] at shorter
      exact Nat.lt_of_succ_lt shorter
    have later := items_size thrifty others
    rw [follows, worth_cons (by simp [comma])] at spent
    simp only [List.length_cons, Expr.sizeOfAll]
    omega
termination_by ts.length

theorem compute_size {ts : List Token} {es : List ParsedExpr} (done : compute ts = .ok es) :
    2 * es.length ≤ Expr.sizeOfAll es ∧ Expr.sizeOfAll es ≤ worth ts + 1 := by
  unfold compute at done
  split at done
  · cases done
  · exact items_size computeItem_thrifty done

theorem orderBy_size {ts : List Token} {es : List ParsedExpr} (done : orderBy ts = .ok es) :
    2 * es.length ≤ Expr.sizeOfAll es ∧ Expr.sizeOfAll es ≤ worth ts + 1 := by
  unfold orderBy at done
  split at done
  · cases done
  · exact items_size orderItem_thrifty done

end Parser

theorem Lexing.Layout.worth_le {position : Nat} {cs : List Char} {ts : List Token}
    (layout : Lexing.Layout position cs ts) : Parser.worth ts ≤ Text.byteLength cs := by
  induction layout with
  | finish blank => exact Nat.zero_le _
  | @token position blanks t c tail rest ts blank visible start lexeme found more ih =>
    have positive := c.utf8Size_pos
    rw [Parser.worth_cons found.kind_ne_eof, lexeme]
    simp only [Text.byteLength_append, Text.byteLength_cons]
    omega

end ClauseSql
