import ClauseSql.Proofs.ClauseGrammar
import Mathlib.Data.Nat.SuccPred

/-! How far the parser looks ahead. Behind an expression or an item it looks at one token, so it reads
the same in front of anything that begins with this token, and in front of anything that closes an item.
Clauses with a comma between them are therefore read one after the other. -/
namespace ClauseSql.Parser

open Grammar

/-- What may stand in the place of the rest behind something that has been read. -/
def Swaps (rest other : List Token) : Prop := other.head? = rest.head? ∨ Closes other

theorem Swaps.append {rest other : List Token} (swaps : Swaps rest other) (used : List Token) :
    Swaps (used ++ rest) (used ++ other) := by
  cases used with
  | nil => exact swaps
  | cons t used => exact .inl rfl

theorem Swaps.cons (t : Token) (rest other : List Token) : Swaps (t :: rest) (t :: other) := .inl rfl

theorem Swaps.stops {power : Nat} {rest other : List Token} (swaps : Swaps rest other)
    (stops : Stops power rest) : Stops power other := by
  obtain same | closes := swaps
  · cases other with
    | nil => trivial
    | cons t other =>
      cases rest with
      | nil => cases same
      | cons u rest =>
        cases same
        exact stops
  · exact closes.stops.mono (Nat.zero_le power)

def Reads {α : Type} {input : List Token} (result : Except Stop (Reading α input)) (value : α)
    (rest : List Token) : Prop :=
  ∃ shorter, result = .ok ⟨value, rest, shorter⟩

/-- A reader, behind tokens that are known already, that does not look beyond the first token of the
rest. -/
def Again {α : Type} (front : List Token)
    (reader : (ts : List Token) → Except Stop (Reading α (front ++ ts))) : Prop :=
  ∀ ts r, reader ts = .ok r → ∃ used, ts = used ++ r.rest ∧
    ∀ other, Swaps r.rest other → Reads (reader (used ++ other)) r.value other

section Rules

variable {rule : Rule} (again : ∀ power, Again [] (rule power))
include again

theorem arguments_again (openedAt : Nat) : Again [] (arguments rule openedAt) := by
  intro ts
  induction size : ts.length using Nat.strong_induction_on generalizing ts with | _ n ih => ?_
  intro r done
  obtain ⟨arg, t, rest, read, follows, last⟩ := arguments_ok done
  have shorter := arg.shorter
  obtain ⟨used, whole, swap⟩ := again 0 ts arg read
  rw [follows] at whole swap shorter
  obtain ⟨closes, value, same⟩ | ⟨comma, more, others, value, same⟩ := last
  · refine ⟨used ++ [t], by simp [whole, same], fun other _ => ?_⟩
    obtain ⟨less, reread⟩ := swap (t :: other) (.cons t rest other)
    rw [← List.append_cons]
    refine ⟨Nat.lt_of_succ_lt less, ?_⟩
    rw [arguments, reread]
    simp [closes, value]
  · obtain ⟨taken, split, swapMore⟩ :=
      ih rest.length (size ▸ Nat.lt_of_succ_lt shorter) rest rfl more others
    refine ⟨used ++ t :: taken, by simp [whole, split, same], fun other swaps => ?_⟩
    rw [same] at swaps
    obtain ⟨less, reread⟩ := swap (t :: (taken ++ other)) (.cons t rest _)
    obtain ⟨least, reread'⟩ := swapMore other swaps
    rw [List.append_assoc, List.cons_append]
    refine ⟨Nat.lt_trans least (Nat.lt_of_succ_lt less), ?_⟩
    rw [arguments, reread]
    simp [comma, value, reread']

theorem call_again (name : Token) : Again [name] (call rule name) := by
  intro ts r done
  obtain ⟨opening, t, rest, rfl, opens, inside⟩ := call_ok done
  by_cases closes : t.kind = .closeParen
  · simp only [call, opens, closes, if_true, Except.ok.injEq] at done
    subst done
    exact ⟨[opening, t], rfl, fun other _ => ⟨by simp; omega, by simp [call, opens, closes]⟩⟩
  · have proper : t.kind ≠ .eof := fun ends => by simp [call, opens, ends] at done
    obtain ⟨closed, -⟩ | ⟨args, read, low, value, same⟩ := inside
    · exact absurd closed closes
    obtain ⟨used, whole, swap⟩ := arguments_again again opening.start (t :: rest) args read
    cases used with
    | nil =>
      have shorter := args.shorter
      rw [List.nil_append] at whole
      simp [← whole] at shorter
    | cons u used =>
      obtain rfl := (List.cons.inj whole).1
      refine ⟨opening :: t :: used, by simp [same, whole], fun other swaps => ?_⟩
      rw [same] at swaps
      obtain ⟨less, reread⟩ := swap other swaps
      refine ⟨Nat.lt_succ_of_lt (Nat.lt_succ_of_lt less), ?_⟩
      have limit : args.value.2 < nestingLimit := low
      simp only [List.cons_append] at reread ⊢
      simp only [call, opens, closes, proper, if_true, if_false, reread]
      simp [bounded, value, limit]

theorem parenthesized_again (opening : Token) : Again [opening] (parenthesized rule opening) := by
  intro ts r done
  obtain ⟨inner, t, read, follows, closes, value⟩ := parenthesized_ok done
  obtain ⟨used, whole, swap⟩ := again 0 ts inner read
  rw [follows] at whole swap
  refine ⟨used ++ [t], by simp [whole], fun other _ => ?_⟩
  obtain ⟨less, reread⟩ := swap (t :: other) (.cons t r.rest other)
  rw [← List.append_cons]
  refine ⟨Nat.lt_succ_of_lt (Nat.lt_of_succ_lt less), ?_⟩
  rw [parenthesized, reread]
  simp [closes, value]

theorem primary_again (first : Token) : Again [first] (primary rule first) := by
  intro ts r done
  unfold primary at done
  split at done
  · next kind is =>
    cases done
    exact ⟨[], rfl, fun other _ => ⟨Nat.lt_succ_self _, by simp [primary, is]⟩⟩
  · next is =>
    cases done
    exact ⟨[], rfl, fun other _ => ⟨Nat.lt_succ_self _, by simp [primary, is]⟩⟩
  · next is =>
    cases done
    exact ⟨[], rfl, fun other _ => ⟨Nat.lt_succ_self _, by simp [primary, is]⟩⟩
  · next is =>
    obtain ⟨used, whole, swap⟩ := call_again again first ts r done
    refine ⟨used, whole, fun other swaps => ?_⟩
    simpa only [primary, is] using swap other swaps
  · next is =>
    obtain ⟨used, whole, swap⟩ := parenthesized_again again first ts r done
    refine ⟨used, whole, fun other swaps => ?_⟩
    simpa only [primary, is] using swap other swaps
  · next is =>
    split at done
    · cases done
    · next operand read =>
      obtain ⟨rfl, low⟩ := bounded_ok done
      obtain ⟨used, whole, swap⟩ := again BinaryOperator.notPower ts operand read
      refine ⟨used, whole, fun other swaps => ?_⟩
      obtain ⟨less, reread⟩ := swap other swaps
      refine ⟨Nat.lt_succ_of_lt less, ?_⟩
      have limit : operand.value.height < nestingLimit := low
      simp only [primary, is, reread]
      simp [bounded, Reading.map, Reading.behind, limit]
  · cases done

omit again in
theorem unchained {op : BinaryOperator} {compared : Bool} (single : op.isComparison → compared = false) :
    (op.isComparison && compared) = false := by
  cases comparison : op.isComparison with
  | false => rfl
  | true => exact single comparison

omit again in
theorem operators_step {power : Nat} {compared : Bool} {input : List Token} {left : Sized} {t : Token}
    {ts : List Token} {shorter : (t :: ts).length < input.length} {op : BinaryOperator}
    {right : Reading Sized ts} (kind : t.kind = .operator op) (strong : power ≤ (Rank.of op).power)
    (single : op.isComparison → compared = false) (read : rule ((Rank.of op).power + 1) ts = .ok right)
    (low : max left.height right.value.height + 1 ≤ nestingLimit) :
    operators rule power compared (⟨left, t :: ts, shorter⟩ : Reading Sized input) =
      operators rule power (compared || op.isComparison)
        ⟨⟨.binary op left.expr right.value.expr, max left.height right.value.height + 1⟩, right.rest,
          Nat.lt_trans right.shorter (Nat.lt_of_succ_lt shorter)⟩ := by
  rw [operators]
  simp [kind, Nat.not_lt.mpr strong, unchained single, read, Nat.not_lt.mpr low]

theorem operators_again {power : Nat} {compared : Bool} {input : List Token}
    {left result : Reading Sized input} (done : operators rule power compared left = .ok result) :
    ∃ used, left.rest = used ++ result.rest ∧
      ∀ {start : List Token} (other : Reading Sized start) rest, other.value = left.value →
        other.rest = used ++ rest → Swaps result.rest rest →
        Reads (operators rule power compared other) result.value rest := by
  obtain ⟨rfl, stops⟩ | ⟨t, ts, op, right, less, follows, kind, strong, single, read, low, more⟩ :=
    operators_ok done
  · refine ⟨[], rfl, fun other rest value begins swaps => ?_⟩
    obtain ⟨_, _, shorter⟩ := other
    cases value
    cases begins
    exact ⟨shorter, operators_stop (swaps.stops stops)⟩
  · obtain ⟨taken, split, swap⟩ := again _ ts right read
    obtain ⟨used, behind, swapMore⟩ := operators_again more
    dsimp only at behind
    refine ⟨t :: (taken ++ used), by simp [follows, split, behind],
      fun other rest value begins swaps => ?_⟩
    obtain ⟨_, _, shorter⟩ := other
    simp only [List.cons_append, List.append_assoc] at value begins
    subst value begins
    obtain ⟨less, reread⟩ := swap (used ++ rest) (by rw [behind]; exact swaps.append used)
    rw [operators_step kind strong single reread low]
    exact swapMore _ rest rfl rfl swaps
termination_by left.rest.length
decreasing_by
  rw [follows]
  exact Nat.lt_succ_of_lt right.shorter

end Rules

theorem nested_again (depth : Nat) : ∀ power, Again [] (nested depth power) := by
  induction depth with
  | zero =>
    intro power ts r done
    cases ts <;> cases done
  | succ depth ih =>
    intro power ts r done
    cases ts with
    | nil => cases done
    | cons first ts =>
      rw [nested_succ] at done
      split at done
      · cases done
      · next left read =>
        obtain ⟨used, whole, swap⟩ := primary_again ih first ts left read
        obtain ⟨more, behind, swapMore⟩ := operators_again ih done
        refine ⟨first :: (used ++ more), by simp [whole, behind], fun other swaps => ?_⟩
        obtain ⟨less, reread⟩ := swap (more ++ other) (by rw [behind]; exact swaps.append more)
        rw [List.cons_append, List.append_assoc, nested_succ, reread]
        exact swapMore _ other rfl rfl swaps

theorem expression_again : Again [] expression := nested_again nestingLimit 0

theorem computeItem_again : Again [] computeItem := by
  intro ts r done
  obtain ⟨value, t, name, read, follows, joins, names, made⟩ := computeItem_ok done
  obtain ⟨used, whole, swap⟩ := expression_again ts value read
  rw [follows] at whole swap
  refine ⟨used ++ [t, name], by simp [whole], fun other _ => ?_⟩
  obtain ⟨less, reread⟩ := swap (t :: name :: other) (.cons t _ _)
  rw [List.append_assoc, List.cons_append, List.singleton_append]
  refine ⟨Nat.lt_of_succ_lt (Nat.lt_of_succ_lt less), ?_⟩
  rw [computeItem, reread]
  simp [joins, names, made]

theorem undirected {ts : List Token} {value : Reading Sized ts} {r : Reading ParsedExpr ts}
    (read : expression ts = .ok value) (done : orderItem ts = .ok r) (same : r.rest = value.rest) :
    ∀ t ∈ value.rest.head?, t.kind ≠ .identifier := by
  intro t head word
  obtain ⟨expr, after, shorter⟩ := value
  cases after with
  | nil => cases head
  | cons u rest =>
    cases head
    rw [orderItem, read] at done
    simp only [word, if_true] at done
    split at done
    · cases done
      simp at same
    · cases done

theorem orderItem_again : Again [] orderItem := by
  intro ts r done
  obtain ⟨value, read, made⟩ := orderItem_ok done
  obtain ⟨used, whole, swap⟩ := expression_again ts value read
  obtain ⟨same, made⟩ | ⟨t, descending, follows, word, direction, made⟩ := made
  · have plain : ∀ t ∈ value.rest.head?, t.kind ≠ .identifier := undirected read done same
    refine ⟨used, by rw [same, ← whole], fun other swaps => ?_⟩
    rw [same] at swaps
    obtain ⟨less, reread⟩ := swap other swaps
    refine ⟨less, ?_⟩
    rw [orderItem, reread]
    cases other with
    | nil => simp [made]
    | cons u other =>
      have next : u.kind ≠ .identifier := by
        obtain head | closes := swaps
        · exact plain u head.symm
        · obtain kind | kind := closes u rfl <;> simp [kind]
      simp [next, made]
  · rw [follows] at whole swap
    refine ⟨used ++ [t], by simp [whole], fun other _ => ?_⟩
    obtain ⟨less, reread⟩ := swap (t :: other) (.cons t _ _)
    rw [← List.append_cons]
    refine ⟨Nat.lt_of_succ_lt less, ?_⟩
    rw [orderItem, reread]
    simp [word, direction, made]

theorem items_append {clause : Clause} {item : (ts : List Token) → Except Stop (Reading ParsedExpr ts)}
    (again : Again [] item)
    (spelling : ∀ {ts} {r : Reading ParsedExpr ts}, item ts = .ok r →
      ∃ used, ts = used ++ r.rest ∧ SpellsItem clause used r.value)
    {body us : List Token} {last comma : Token} {es fs : List ParsedExpr}
    (ends : last.kind = .eof) (proper : ∀ t ∈ body, t.kind ≠ .eof) (separates : comma.kind = .comma)
    (left : items item (body ++ [last]) = .ok es) (right : items item us = .ok fs) :
    items item (body ++ comma :: us) = .ok (es ++ fs) := by
  obtain ⟨first, read, made⟩ := items_ok left
  obtain ⟨used, whole, swap⟩ := again _ first read
  obtain ⟨_, split, spelled⟩ := spelling read
  obtain rfl := List.append_cancel_right (whole.symm.trans split)
  obtain ⟨rfl, closed⟩ | ⟨t, rest, more, follows, kind, others, rfl⟩ := made
  · obtain rfl := split_endMarked whole ends proper spelled.proper closed
    obtain ⟨less, reread⟩ := swap (comma :: us) (.inr (by simp [Closes, separates]))
    rw [items, reread]
    simp [separates, right]
  · rw [follows] at whole swap
    obtain rfl | ⟨inner, u, rfl⟩ := rest.eq_nil_or_concat
    · obtain ⟨-, same⟩ := List.append_inj' whole rfl
      cases same
      rw [ends] at kind
      cases kind
    · have regrouped : body ++ [last] = (used ++ t :: inner) ++ [u] := by simpa using whole
      obtain ⟨rfl, same⟩ := List.append_inj' regrouped rfl
      cases same
      rw [List.concat_eq_append] at others
      have inside : ∀ t ∈ inner, t.kind ≠ .eof := fun t member =>
        proper t (List.mem_append_right _ (List.mem_cons_of_mem _ member))
      have rest := items_append again spelling ends inside separates others right
      obtain ⟨less, reread⟩ := swap (t :: (inner ++ comma :: us)) (.cons t _ _)
      rw [List.append_assoc, List.cons_append, items, reread]
      simp [kind, rest]
termination_by body.length

theorem clause_append {clause : Clause} (list : clause ≠ .filter) {body us : List Token}
    {last comma : Token} {es fs : List ParsedExpr} (ends : last.kind = .eof)
    (proper : ∀ t ∈ body, t.kind ≠ .eof) (separates : comma.kind = .comma)
    (left : Parser.clause clause (body ++ [last]) = .ok es) (right : Parser.clause clause us = .ok fs) :
    Parser.clause clause (body ++ comma :: us) = .ok (es ++ fs) := by
  have visible : isBlank (body ++ comma :: us) = false := by
    cases body with
    | nil => simp [isBlank, separates]
    | cons t body => simpa [isBlank] using proper t List.mem_cons_self
  cases clause with
  | filter => exact absurd rfl list
  | compute =>
    have joined := items_append computeItem_again computeItem_spelling ends proper separates
      (compute_ok left) (compute_ok right)
    simpa [Parser.clause, compute, visible] using joined
  | orderBy =>
    have joined := items_append orderItem_again orderItem_spelling ends proper separates
      (orderBy_ok left) (orderBy_ok right)
    simpa [Parser.clause, orderBy, visible] using joined

end ClauseSql.Parser
