import ClauseSql.Proofs.Lookahead
import Mathlib.Algebra.BigOperators.Group.List.Basic
import Mathlib.Algebra.Ring.Int.Defs

/-! Where the parser stops, and what it says there. When it refuses some tokens it has looked at some of
them, and would say the same whatever stood behind these. The error points at one of the tokens that it
has looked at: at the last one if this is the one that does not fit, or at an opening parenthesis that
none of them closes. -/
namespace ClauseSql

namespace Token

def level (t : Token) : Int :=
  match t.kind with
  | .openParen => 1
  | .closeParen => -1
  | _ => 0

def levelOfAll (ts : List Token) : Int := (ts.map level).sum

@[simp] theorem levelOfAll_nil : levelOfAll [] = 0 := rfl

@[simp] theorem levelOfAll_cons (t : Token) (ts : List Token) :
    levelOfAll (t :: ts) = t.level + levelOfAll ts := List.sum_cons

@[simp] theorem levelOfAll_append (ts us : List Token) :
    levelOfAll (ts ++ us) = levelOfAll ts + levelOfAll us := by
  simp [levelOfAll]

/-- Every parenthesis is closed behind the place where it is opened. -/
structure Balanced (ts : List Token) : Prop where
  total : levelOfAll ts = 0
  least : ∀ front, front <+: ts → 0 ≤ levelOfAll front

def Closed (inside : List Token) : Prop :=
  ∃ within closing rest, inside = within ++ closing :: rest ∧ closing.kind = .closeParen ∧
    Balanced within

theorem balanced_nil : Balanced [] where
  total := rfl
  least front begins := by rw [List.prefix_nil.1 begins, levelOfAll_nil]

theorem Balanced.append {ts us : List Token} (first : Balanced ts) (second : Balanced us) :
    Balanced (ts ++ us) where
  total := by rw [levelOfAll_append, first.total, second.total, add_zero]
  least front begins := by
    obtain early | ⟨more, rfl⟩ := List.prefix_or_prefix_of_prefix begins (List.prefix_append ts us)
    · exact first.least front early
    · rw [levelOfAll_append, first.total, zero_add]
      exact second.least more ((List.prefix_append_right_inj ts).1 begins)

theorem balanced_single {t : Token} (plain : t.level = 0) : Balanced [t] where
  total := by simp [plain]
  least front begins := by
    obtain rfl | ⟨more, rfl, rest⟩ := List.prefix_cons_iff.1 begins
    · exact le_refl 0
    · simp [List.prefix_nil.1 rest, plain]

theorem Balanced.cons {t : Token} {ts : List Token} (balanced : Balanced ts) (plain : t.level = 0) :
    Balanced (t :: ts) := (balanced_single plain).append balanced

theorem Balanced.wrap {ts : List Token} {opening closing : Token} (balanced : Balanced ts)
    (opens : opening.kind = .openParen) (closes : closing.kind = .closeParen) :
    Balanced (opening :: (ts ++ [closing])) where
  total := by simp [balanced.total, level, opens, closes]
  least front begins := by
    obtain rfl | ⟨more, rfl, rest⟩ := List.prefix_cons_iff.1 begins
    · exact le_refl 0
    · obtain rfl | early := List.prefix_concat_iff.1 rest
      · simp [balanced.total, level, opens, closes]
      · have least := balanced.least more early
        simp only [levelOfAll_cons, level, opens]
        omega

theorem Balanced.not_closed {inside : List Token} {t : Token} (balanced : Balanced inside)
    (other : t.kind ≠ .closeParen) : ¬ Closed (inside ++ [t]) := by
  rintro ⟨within, closing, rest, whole, closes, inner⟩
  have below : levelOfAll (within ++ [closing]) < 0 := by simp [inner.total, level, closes]
  have begins : within ++ [closing] <+: inside ++ [t] := ⟨rest, by simp [whole]⟩
  obtain same | early := List.prefix_concat_iff.1 begins
  · have last : closing = t := by simpa using congrArg List.getLast? same
    exact other (last ▸ closes)
  · have least := balanced.least _ early
    omega

end Token

namespace Grammar

open Token

mutual
theorem Spells.balanced {ts : List Token} {e : ParsedExpr} : Spells ts e → Balanced ts
  | .literal kind => balanced_single (by simp [level, kind])
  | .path kind => balanced_single (by rcases kind with kind | kind <;> simp [level, kind])
  | .not kind phrase => phrase.balanced.cons (by simp [level, kind])
  | .binary kind left right =>
    left.balanced.append (right.balanced.cons (by simp [level, kind]))
  | .call calls opens closes args => (args.balanced.wrap opens closes).cons (by simp [level, calls])
  | .group opens closes phrase => phrase.balanced.wrap opens closes
theorem SpellsAll.balanced {ts : List Token} {es : List ParsedExpr} : SpellsAll ts es → Balanced ts
  | .none => balanced_nil
  | .one phrase => phrase.balanced
  | .more comma phrase others =>
    phrase.balanced.append (others.balanced.cons (by simp [level, comma]))
end

end Grammar

namespace Parser

open Token Grammar

/-- Tokens as a source has them: an end marker stands at the end and nowhere else, and a function name
has an opening parenthesis behind it. -/
structure Stream (ts : List Token) : Prop where
  ending : ∃ body last, ts = body ++ [last] ∧ last.kind = .eof ∧ ∀ t ∈ body, t.kind ≠ .eof
  calls : ts.IsChain fun t u => t.kind = .functionName → u.kind = .openParen

theorem Stream.behind {used rest : List Token} (stream : Stream (used ++ rest))
    (proper : ∀ t ∈ used, t.kind ≠ .eof) : ∃ t more, rest = t :: more ∧ Stream (t :: more) := by
  obtain ⟨body, last, whole, ends, inside⟩ := stream.ending
  obtain rfl | ⟨init, u, rfl⟩ := rest.eq_nil_or_concat
  · rw [List.append_nil] at whole
    exact absurd ends (proper last (by simp [whole]))
  · rw [List.concat_eq_append] at stream whole ⊢
    rw [← List.append_assoc] at whole
    obtain ⟨rfl, same⟩ := List.append_inj' whole rfl
    cases same
    obtain ⟨t, more, split⟩ := List.exists_cons_of_ne_nil (List.concat_ne_nil last init)
    refine ⟨t, more, split, ?_⟩
    rw [← split]
    refine ⟨⟨init, last, by simp, ends, fun t member => inside t (List.mem_append_right _ member)⟩, ?_⟩
    exact stream.calls.right_of_append

theorem Stream.tail {t : Token} {ts : List Token} (stream : Stream (t :: ts)) (proper : t.kind ≠ .eof) :
    ∃ u more, ts = u :: more ∧ Stream (u :: more) :=
  Stream.behind (show Stream ([t] ++ ts) from stream) (by simpa using proper)

/-- The parser has looked at these tokens, the last one included, when it stops with this error. -/
inductive Fault : List Token → ParseError → Prop
  | token {before : List Token} {t : Token} : t.kind ≠ .eof →
      Fault (before ++ [t]) (.unexpectedToken t.start t.text)
  | ending {before : List Token} {t : Token} : t.kind = .eof →
      Fault (before ++ [t]) (.unexpectedEnd t.start)
  | unclosed {before inside : List Token} {opening : Token} : opening.kind = .openParen →
      ¬ Closed inside → Fault (before ++ opening :: inside) (.missingCloseParen opening.start)
  | chained {before : List Token} {t : Token} {op : Comparison} :
      t.kind = .operator (.comparison op) → Fault (before ++ [t]) (.chainedComparison t.start)
  | unnamed {before : List Token} {t : Token} : t.kind = .comma ∨ t.kind = .eof →
      Fault (before ++ [t]) (.missingAlias t.start)
  | deep {seen : List Token} {t : Token} : t ∈ seen → Fault seen (.tooDeep t.start)

namespace Fault

theorem unexpected (before : List Token) (t : Token) : Fault (before ++ [t]) (.unexpected t) := by
  unfold ParseError.unexpected
  split
  · next ends => exact .ending ends
  · next other => exact .token other

theorem behind {seen : List Token} {error : ParseError} (fault : Fault seen error)
    (front : List Token) : Fault (front ++ seen) error := by
  cases fault with
  | token other => exact List.append_assoc front _ _ ▸ .token other
  | ending ends => exact List.append_assoc front _ _ ▸ .ending ends
  | unclosed opens never => exact List.append_assoc front _ _ ▸ .unclosed opens never
  | chained compares => exact List.append_assoc front _ _ ▸ .chained compares
  | unnamed next => exact List.append_assoc front _ _ ▸ .unnamed next
  | deep member => exact .deep (List.mem_append_right front member)

theorem position {seen : List Token} {error : ParseError} (fault : Fault seen error) :
    ∃ t ∈ seen, error.position = t.start := by
  cases fault with
  | deep member => exact ⟨_, member, rfl⟩
  | _ => exact ⟨_, by simp, rfl⟩

/-- The parser has looked at one token at least, so that what stands in front of these tokens is read the
same whatever follows them. -/
theorem swaps {seen : List Token} {error : ParseError} (fault : Fault seen error)
    (after other : List Token) : Swaps (seen ++ after) (seen ++ other) := by
  obtain ⟨t, member, -⟩ := fault.position
  cases seen with
  | nil => cases member
  | cons t seen => exact .cons t _ _

end Fault

/-- A reader has stopped, behind tokens that are known already. What it says is settled by its first token
and some that follow it. -/
def Halted (front : List Token) {β : List Token → Type} (reader : (ts : List Token) → Except Stop (β ts))
    (first : Token) (ts : List Token) (stop : Stop) : Prop :=
  ∃ seen after, ts = seen ++ after ∧ Fault (front ++ first :: seen) stop.cause ∧
    ∀ other, reader (first :: (seen ++ other)) = .error stop

def HaltedBehind (first : Token) {β : List Token → Type}
    (reader : (ts : List Token) → Except Stop (β ts)) (ts : List Token) (stop : Stop) : Prop :=
  ∃ seen after, ts = seen ++ after ∧ Fault (first :: seen) stop.cause ∧
    ∀ other, reader (seen ++ other) = .error stop

theorem Halted.behind {β : List Token → Type} {reader : (ts : List Token) → Except Stop (β ts)}
    {t first : Token} {ts : List Token} {stop : Stop} (halted : Halted [t] reader first ts stop) :
    HaltedBehind t reader (first :: ts) stop := by
  obtain ⟨seen, after, rfl, fault, settled⟩ := halted
  exact ⟨first :: seen, after, rfl, fault, settled⟩

section Readers

variable {β γ : List Token → Type} {reader : (ts : List Token) → Except Stop (β ts)}
  {outer : (ts : List Token) → Except Stop (γ ts)} {first : Token} {ts : List Token} {stop : Stop}

theorem Halted.under (halted : Halted [] reader first ts stop) (front : List Token)
    (same : ∀ {ts}, reader ts = .error stop → outer ts = .error stop) :
    Halted front outer first ts stop := by
  obtain ⟨seen, after, whole, fault, settled⟩ := halted
  exact ⟨seen, after, whole, fault.behind front, fun other => same (settled other)⟩

theorem HaltedBehind.under (halted : HaltedBehind first reader ts stop)
    (same : ∀ {ts}, reader ts = .error stop → outer ts = .error stop) :
    HaltedBehind first outer ts stop := by
  obtain ⟨seen, after, whole, fault, settled⟩ := halted
  exact ⟨seen, after, whole, fault, fun other => same (settled other)⟩

theorem Halted.next {α : Type} {reader : (ts : List Token) → Except Stop (Reading α ts)} {value : α}
    {t : Token} {front used more : List Token}
    (swap : ∀ other, Reads (reader (first :: (used ++ t :: other))) value (t :: other))
    (fault : Fault (front ++ (first :: used ++ [t])) stop.cause)
    (refused : ∀ {ts rest less}, reader ts = .ok ⟨value, t :: rest, less⟩ → outer ts = .error stop) :
    Halted front outer first (used ++ t :: more) stop := by
  refine ⟨used ++ [t], more, List.append_cons used t more, fault, fun other => ?_⟩
  obtain ⟨less, reread⟩ := swap other
  rw [← List.append_cons]
  exact refused reread

end Readers

def Explains (rule : Rule) : Prop :=
  ∀ power first ts stop, Stream (first :: ts) → rule power (first :: ts) = .error stop →
    Halted [] (rule power) first ts stop

theorem bounded_error {ts : List Token} {position : Nat} {parts : List ParsedExpr}
    {r : Reading Sized ts} {stop : Stop} (failed : bounded position parts r = .error stop) :
    nestingLimit < r.value.height ∧ stop = ⟨.tooDeep position, parts⟩ := by
  unfold bounded at failed
  split at failed
  · next high => exact ⟨high, (Except.error.inj failed).symm⟩
  · cases failed

theorem arguments_error {rule : Rule} {openedAt : Nat} {ts : List Token} {stop : Stop}
    (failed : arguments rule openedAt ts = .error stop) :
    rule 0 ts = .error stop ∨
    ∃ arg : Reading Sized ts, rule 0 ts = .ok arg ∧ ∀ t rest, arg.rest = t :: rest →
      (t.kind = .eof ∧ stop = ⟨.missingCloseParen openedAt, [arg.value.expr]⟩) ∨
      (t.kind = .comma ∧ ∃ inner, arguments rule openedAt rest = .error inner ∧
        stop = inner.after [arg.value.expr]) ∨
      (t.kind ≠ .closeParen ∧ t.kind ≠ .eof ∧ t.kind ≠ .comma ∧
        stop = ⟨.unexpected t, [arg.value.expr]⟩) := by
  rw [arguments] at failed
  split at failed
  · next inner read =>
    cases failed
    exact .inl read
  · next arg after shorter read =>
    refine .inr ⟨_, read, fun t rest follows => ?_⟩
    dsimp only at follows
    subst follows
    dsimp only at failed
    split at failed
    · cases failed
    · next opens =>
      split at failed
      · next ends =>
        cases failed
        exact .inl ⟨ends, rfl⟩
      · next proper =>
        split at failed
        · next comma =>
          split at failed
          · next inner others =>
            cases failed
            exact .inr (.inl ⟨comma, inner, others, rfl⟩)
          · cases failed
        · next other =>
          cases failed
          exact .inr (.inr ⟨opens, proper, other, rfl⟩)

theorem parenthesized_error {rule : Rule} {opening : Token} {ts : List Token} {stop : Stop}
    (failed : parenthesized rule opening ts = .error stop) :
    rule 0 ts = .error stop ∨
    ∃ inner : Reading Sized ts, rule 0 ts = .ok inner ∧
      (∀ t ∈ inner.rest.head?, t.kind ≠ .closeParen) ∧
      stop = ⟨.missingCloseParen opening.start, [inner.value.expr]⟩ := by
  unfold parenthesized at failed
  split at failed
  · next inner read =>
    cases failed
    exact .inl read
  · next inner after shorter read =>
    refine .inr ⟨_, read, ?_⟩
    split at failed
    · cases failed
      exact ⟨by simp, rfl⟩
    · next t rest shorter =>
      split at failed
      · cases failed
      · next other =>
        cases failed
        exact ⟨by simpa using other, rfl⟩

theorem operators_error {rule : Rule} {power : Nat} {compared : Bool} {input : List Token}
    {left : Reading Sized input} {stop : Stop}
    (failed : operators rule power compared left = .error stop) :
    ∃ t ts op, left.rest = t :: ts ∧ t.kind = .operator op ∧ power ≤ (Rank.of op).power ∧
      ((op.isComparison = true ∧ compared = true ∧
          stop = ⟨.chainedComparison t.start, [left.value.expr]⟩) ∨
        (op.isComparison → compared = false) ∧
          ((∃ inner, rule ((Rank.of op).power + 1) ts = .error inner ∧
              stop = inner.after [left.value.expr]) ∨
            ∃ right : Reading Sized ts, rule ((Rank.of op).power + 1) ts = .ok right ∧
              ((nestingLimit < max left.value.height right.value.height + 1 ∧
                  stop = ⟨.tooDeep t.start, [left.value.expr, right.value.expr]⟩) ∨
                max left.value.height right.value.height + 1 ≤ nestingLimit ∧ ∃ less,
                  operators rule power (compared || op.isComparison)
                    (⟨⟨.binary op left.value.expr right.value.expr,
                      max left.value.height right.value.height + 1⟩, right.rest, less⟩ :
                        Reading Sized input) = .error stop))) := by
  unfold operators at failed
  split at failed
  · cases failed
  · next t ts follows =>
    split at failed
    · next op kind =>
      simp only [powers_fst, powers_snd_rank] at failed
      split at failed
      · cases failed
      · next strong =>
        refine ⟨t, ts, op, follows, kind, Nat.not_lt.mp strong, ?_⟩
        split at failed
        · next chained =>
          cases failed
          rw [Bool.and_eq_true] at chained
          exact .inl ⟨chained.1, chained.2, rfl⟩
        · next single =>
          refine .inr ⟨fun comparison => by simpa [comparison] using single, ?_⟩
          split at failed
          · next inner read =>
            cases failed
            exact .inl ⟨inner, read, rfl⟩
          · next right read =>
            refine .inr ⟨right, read, ?_⟩
            split at failed
            · next high =>
              cases failed
              exact .inl ⟨high, rfl⟩
            · next low => exact .inr ⟨Nat.not_lt.mp low, _, failed⟩
    · cases failed

/-- A reader that has taken some tokens of a stream has looked at the next one. It takes the same whatever
stands behind this one. -/
theorem Again.behind {α : Type} {reader : (ts : List Token) → Except Stop (Reading α ts)}
    (again : Again [] reader) {first : Token} {ts taken : List Token} {r : Reading α (first :: ts)}
    (stream : Stream (first :: ts)) (read : reader (first :: ts) = .ok r)
    (split : first :: ts = taken ++ r.rest) (proper : ∀ t ∈ taken, t.kind ≠ .eof) :
    ∃ used t more, taken = first :: used ∧ r.rest = t :: more ∧ ts = used ++ t :: more ∧
      Stream (t :: more) ∧
      ∀ other, Reads (reader (first :: (used ++ t :: other))) r.value (t :: other) := by
  obtain ⟨same, whole, swap⟩ := again _ r read
  obtain rfl := List.append_cancel_right (whole.symm.trans split)
  rw [whole] at stream
  obtain ⟨t, more, follows, rest⟩ := stream.behind proper
  rw [follows] at whole swap
  cases same with
  | nil =>
    have shorter := r.shorter
    rw [follows, whole, List.nil_append] at shorter
    exact absurd shorter (Nat.lt_irrefl _)
  | cons u used =>
    obtain ⟨rfl, rfl⟩ := List.cons.inj whole
    exact ⟨used, t, more, rfl, follows, rfl, rest, fun other => swap (t :: other) (.cons t more other)⟩

section Rules

variable {rule : Rule} (again : ∀ power, Again [] (rule power)) (spelling : Spelling rule)
include again spelling

theorem rule_again {power : Nat} {first : Token} {ts : List Token} {r : Reading Sized (first :: ts)}
    (stream : Stream (first :: ts)) (read : rule power (first :: ts) = .ok r) :
    ∃ used t more, r.rest = t :: more ∧ ts = used ++ t :: more ∧ Stream (t :: more) ∧
      Balanced (first :: used) ∧
      ∀ other, Reads (rule power (first :: (used ++ t :: other))) r.value (t :: other) := by
  obtain ⟨taken, split, spelled⟩ := spelling power _ r read
  obtain ⟨used, t, more, rfl, follows, whole, rest, swap⟩ :=
    (again power).behind stream read split spelled.proper
  exact ⟨used, t, more, follows, whole, rest, spelled.balanced, swap⟩

variable (explains : Explains rule)
include explains

/-- An error in the arguments of a call, from some argument on. Balanced tokens lie between this one and
the opening parenthesis. -/
theorem arguments_halted {opening : Token} (opens : opening.kind = .openParen) {inside : List Token}
    (balanced : Balanced inside) {first : Token} {ts : List Token} {stop : Stop}
    (stream : Stream (first :: ts)) (failed : arguments rule opening.start (first :: ts) = .error stop) :
    Halted (opening :: inside) (arguments rule opening.start) first ts stop := by
  obtain failed | ⟨arg, read, next⟩ := arguments_error failed
  · refine (explains 0 first ts stop stream failed).under _ fun refused => ?_
    rw [arguments, refused]
  · obtain ⟨used, t, more, follows, rfl, rest, inner, swap⟩ := rule_again again spelling stream read
    obtain ⟨ends, rfl⟩ | ⟨comma, stop, others, rfl⟩ | ⟨other, proper, plain, rfl⟩ := next t more follows
    · have never : ¬ Closed (inside ++ first :: used ++ [t]) :=
        (balanced.append inner).not_closed (by simp [ends])
      have fault : Fault ([] ++ opening :: (inside ++ first :: used ++ [t])) _ := .unclosed opens never
      refine .next swap (by simpa using fault) fun read => ?_
      rw [arguments, read]
      simp [ends]
    · obtain ⟨u, left, rfl, later⟩ := rest.tail (by simp [comma])
      have wider : Balanced (inside ++ (first :: used ++ [t])) :=
        balanced.append (inner.append (balanced_single (by simp [level, comma])))
      obtain ⟨seen, after, rfl, fault, settled⟩ := arguments_halted opens wider later others
      refine ⟨used ++ t :: u :: seen, after, by simp, by simpa [Stop.after] using fault, fun other => ?_⟩
      obtain ⟨less, reread⟩ := swap (u :: (seen ++ other))
      rw [List.append_assoc, List.cons_append, List.cons_append, arguments, reread]
      simp [comma, settled other]
    · have fault := Fault.unexpected (opening :: (inside ++ first :: used)) t
      refine .next swap (by simpa using fault) fun read => ?_
      rw [arguments, read]
      simp [other, proper, plain]
termination_by ts.length

theorem parenthesized_halted {opening : Token} (opens : opening.kind = .openParen) {ts : List Token}
    {stop : Stop} (stream : Stream (opening :: ts))
    (failed : parenthesized rule opening ts = .error stop) :
    HaltedBehind opening (parenthesized rule opening) ts stop := by
  obtain ⟨first, ts, rfl, inner⟩ := stream.tail (by simp [opens])
  obtain failed | ⟨arg, read, other, rfl⟩ := parenthesized_error failed
  · refine ((explains 0 first ts stop inner failed).under _ fun refused => ?_).behind
    rw [parenthesized, refused]
  · obtain ⟨used, t, more, follows, rfl, -, balanced, swap⟩ := rule_again again spelling inner read
    have plain : t.kind ≠ .closeParen := other t (by simp [follows])
    have never : ¬ Closed (first :: used ++ [t]) := balanced.not_closed plain
    have fault : Fault ([] ++ opening :: (first :: used ++ [t])) _ := .unclosed opens never
    refine (Halted.next swap fault fun read => ?_).behind
    rw [parenthesized, read]
    simp [plain]

theorem call_halted {name : Token} (calls : name.kind = .functionName) {ts : List Token} {stop : Stop}
    (stream : Stream (name :: ts)) (failed : call rule name ts = .error stop) :
    HaltedBehind name (call rule name) ts stop := by
  obtain ⟨opening, ts, rfl, inner⟩ := stream.tail (by simp [calls])
  have opens : opening.kind = .openParen := (List.isChain_cons_cons.1 stream.calls).1 calls
  obtain ⟨t, ts, rfl, rest⟩ := inner.tail (by simp [opens])
  have other : t.kind ≠ .closeParen := by
    intro closes
    simp [call, opens, closes] at failed
  by_cases ends : t.kind = .eof
  · simp only [call, opens, ends, if_true, reduceCtorEq, if_false, Except.error.injEq] at failed
    subst failed
    refine ⟨[opening, t], ts, rfl, ?_, fun other => by simp [call, opens, ends]⟩
    have never : ¬ Closed ([] ++ [t]) := balanced_nil.not_closed other
    have fault : Fault ([name] ++ opening :: ([] ++ [t])) _ := .unclosed opens never
    exact fault
  · simp only [call, opens, other, ends, if_true, if_false] at failed
    split at failed
    · next inner read =>
      cases failed
      obtain ⟨seen, after, rfl, fault, settled⟩ :=
        arguments_halted again spelling explains opens balanced_nil rest read
      refine ⟨opening :: t :: seen, after, rfl, fault.behind [name], fun tail => ?_⟩
      simp [call, opens, other, ends, settled tail]
    · next args read =>
      obtain ⟨high, rfl⟩ := bounded_error failed
      obtain ⟨taken, closing, _, _, split, closes, -, spelled⟩ := arguments_spelling spelling read
      rw [List.append_cons] at split
      obtain ⟨used, v, left, -, -, rfl, -, swap⟩ := (arguments_again again opening.start).behind rest read
        split (by simpa [closes, or_imp, forall_and] using spelled.proper)
      refine ⟨opening :: t :: (used ++ [v]), left, by simp, .deep List.mem_cons_self,
        fun tail => ?_⟩
      obtain ⟨less, reread⟩ := swap tail
      rw [List.cons_append, List.cons_append, List.append_assoc, List.singleton_append]
      simp only [call, opens, other, ends, if_true, if_false]
      rw [reread]
      exact if_pos high

theorem primary_halted {first : Token} {ts : List Token} {stop : Stop} (stream : Stream (first :: ts))
    (failed : primary rule first ts = .error stop) :
    HaltedBehind first (primary rule first) ts stop := by
  cases kind : first.kind with
  | literal => simp [primary, kind] at failed
  | identifier => simp [primary, kind] at failed
  | path => simp [primary, kind] at failed
  | functionName =>
    simp only [primary, kind] at failed
    refine (call_halted again spelling explains kind stream failed).under fun refused => ?_
    simpa only [primary, kind] using refused
  | openParen =>
    simp only [primary, kind] at failed
    refine (parenthesized_halted again spelling explains kind stream failed).under fun refused => ?_
    simpa only [primary, kind] using refused
  | not =>
    simp only [primary, kind] at failed
    obtain ⟨t, ts, rfl, rest⟩ := stream.tail (by simp [kind])
    split at failed
    · next inner read =>
      cases failed
      refine ((explains _ t ts stop rest read).under _ fun refused => ?_).behind
      simp only [primary, kind, refused]
    · next operand read =>
      obtain ⟨high, rfl⟩ := bounded_error failed
      obtain ⟨used, v, left, -, rfl, -, -, swap⟩ := rule_again again spelling rest read
      refine (Halted.next swap (.deep List.mem_cons_self) fun read => ?_).behind
      simp only [primary, kind, read]
      exact if_pos high
  | _ =>
    simp only [primary, kind] at failed
    cases failed
    exact ⟨[], ts, rfl, Fault.unexpected [] first, fun other => by simp only [primary, kind]⟩

theorem operators_halted {power : Nat} {compared : Bool} {input : List Token}
    {left : Reading Sized input} {stop : Stop} (stream : Stream left.rest)
    (failed : operators rule power compared left = .error stop) :
    ∃ seen after, left.rest = seen ++ after ∧ Fault seen stop.cause ∧
      ∀ {start : List Token} (other : Reading Sized start) rest, other.value = left.value →
        other.rest = seen ++ rest → operators rule power compared other = .error stop := by
  obtain ⟨t, ts, op, follows, kind, strong, turn⟩ := operators_error failed
  rw [follows] at stream
  obtain ⟨comparison, again, rfl⟩ | ⟨single, turn⟩ := turn
  · obtain ⟨compares, rfl⟩ : ∃ compares, op = .comparison compares := by
      cases op with
      | comparison compares => exact ⟨compares, rfl⟩
      | _ => cases comparison
    have fault : Fault ([] ++ [t]) (.chainedComparison t.start) := .chained kind
    refine ⟨[t], ts, follows, fault, fun other rest value begins => ?_⟩
    obtain ⟨_, _, shorter⟩ := other
    subst value begins
    rw [operators]
    simp [kind, Nat.not_lt.mpr strong, comparison, again]
  obtain ⟨u, ts, rfl, operand⟩ := stream.tail (by simp [kind])
  obtain ⟨inner, read, rfl⟩ | ⟨right, read, ⟨high, rfl⟩ | ⟨low, less, more⟩⟩ := turn
  · obtain ⟨seen, after, rfl, fault, settled⟩ := explains _ u ts inner operand read
    refine ⟨t :: u :: seen, after, follows, fault.behind [t], fun other rest value begins => ?_⟩
    obtain ⟨_, _, shorter⟩ := other
    subst value begins
    rw [operators]
    simp [kind, Nat.not_lt.mpr strong, unchained single, settled rest]
  · obtain ⟨used, v, left, -, rfl, -, -, swap⟩ := rule_again again spelling operand read
    refine ⟨t :: u :: (used ++ [v]), left, by simp [follows], .deep List.mem_cons_self,
      fun other rest value begins => ?_⟩
    obtain ⟨_, _, shorter⟩ := other
    obtain ⟨less, reread⟩ := swap rest
    rw [List.cons_append, List.cons_append, List.append_assoc, List.singleton_append] at begins
    subst value begins
    rw [operators]
    simp [kind, Nat.not_lt.mpr strong, unchained single, reread, high]
  · -- The loop stops in a later turn, at tokens behind the right operand.
    obtain ⟨_, v, left, next, -, rest, -, -⟩ := rule_again again spelling operand read
    obtain ⟨seen, after, split, fault, settled⟩ := operators_halted (next ▸ rest) more
    obtain ⟨used, whole, swap⟩ := again _ _ right read
    dsimp only at split
    refine ⟨t :: (used ++ seen), after, by simp [follows, whole, split], fault.behind (t :: used),
      fun other rest value begins => ?_⟩
    obtain ⟨_, _, shorter⟩ := other
    rw [List.cons_append, List.append_assoc] at begins
    subst value begins
    obtain ⟨less, reread⟩ := swap (seen ++ rest) (split ▸ fault.swaps after rest)
    rw [operators_step kind strong single reread low]
    exact settled _ rest rfl rfl
termination_by left.rest.length
decreasing_by
  rw [follows]
  exact Nat.lt_succ_of_lt right.shorter

end Rules

theorem nested_explains (depth : Nat) : Explains (nested depth) := by
  induction depth with
  | zero =>
    intro power first ts stop stream failed
    cases failed
    exact ⟨[], ts, rfl, .deep (by simp), fun other => rfl⟩
  | succ depth ih =>
    intro power first ts stop stream failed
    have again := nested_again depth
    have spelling := nested_spelling depth
    rw [nested_succ] at failed
    split at failed
    · next inner read =>
      cases failed
      obtain ⟨seen, after, whole, fault, settled⟩ := primary_halted again spelling ih stream read
      exact ⟨seen, after, whole, fault, fun other => by rw [nested_succ, settled other]⟩
    · next left read =>
      obtain ⟨taken, split, spelled⟩ := primary_spelling spelling read
      rw [split] at stream
      obtain ⟨t, more, follows, rest⟩ := stream.behind spelled.proper
      obtain ⟨seen, after, behind, fault, settled⟩ :=
        operators_halted again spelling ih (follows ▸ rest) failed
      obtain ⟨used, whole, swap⟩ := primary_again again first ts left read
      refine ⟨used ++ seen, after, by simp [whole, behind], fault.behind (first :: used), fun other => ?_⟩
      obtain ⟨less, reread⟩ := swap (seen ++ other) (behind ▸ fault.swaps after other)
      rw [List.append_assoc, nested_succ, reread]
      exact settled _ other rfl rfl

theorem expression_halted {first : Token} {ts : List Token} {stop : Stop} (stream : Stream (first :: ts))
    (failed : expression (first :: ts) = .error stop) : Halted [] expression first ts stop :=
  nested_explains nestingLimit 0 first ts stop stream failed

theorem expression_behind {first : Token} {ts : List Token} {r : Reading Sized (first :: ts)}
    (stream : Stream (first :: ts)) (read : expression (first :: ts) = .ok r) :
    ∃ value used t more less, r = ⟨value, t :: more, less⟩ ∧ ts = used ++ t :: more ∧
      Stream (t :: more) ∧
      ∀ other, Reads (expression (first :: (used ++ t :: other))) value (t :: other) := by
  obtain ⟨taken, split, spelled⟩ := expression_spelling read
  obtain ⟨used, t, more, -, follows, whole, rest, swap⟩ :=
    expression_again.behind stream read split spelled.proper
  obtain ⟨value, _, less⟩ := r
  cases follows
  exact ⟨value, used, t, more, less, rfl, whole, rest, swap⟩

def unaliased (t : Token) : ParseError :=
  if t.kind = .comma ∨ t.kind = .eof then .missingAlias t.start else .unexpected t

theorem Fault.unaliased (before : List Token) (t : Token) :
    Fault (before ++ [t]) (unaliased t) := by
  unfold Parser.unaliased
  split
  · next ends => exact .unnamed ends
  · exact .unexpected before t

theorem computeItem_unaliased {ts rest : List Token} {value : Sized} {t : Token}
    {shorter : (t :: rest).length < ts.length} (read : expression ts = .ok ⟨value, t :: rest, shorter⟩)
    (other : t.kind ≠ .asWord) : computeItem ts = .error ⟨unaliased t, [value.expr]⟩ := by
  rw [computeItem, read]
  cases rest with
  | nil => rfl
  | cons name rest => simp [other, unaliased]

theorem computeItem_halted {first : Token} {ts : List Token} {stop : Stop}
    (stream : Stream (first :: ts)) (failed : computeItem (first :: ts) = .error stop) :
    Halted [] computeItem first ts stop := by
  cases read : expression (first :: ts) with
  | error inner =>
    rw [computeItem, read] at failed
    cases failed
    exact (expression_halted stream read).under [] fun refused => by rw [computeItem, refused]
  | ok r =>
    obtain ⟨value, used, t, more, less, rfl, rfl, rest, swap⟩ := expression_behind stream read
    by_cases joins : t.kind = .asWord
    · obtain ⟨name, more, rfl, -⟩ := rest.tail (by simp [joins])
      have other : name.kind ≠ .identifier := by
        intro names
        simp [computeItem, read, joins, names] at failed
      simp only [computeItem, read, joins, other, if_true, if_false] at failed
      cases failed
      refine ⟨used ++ [t, name], more, by simp, ?_, fun tail => ?_⟩
      · simpa using Fault.unexpected (first :: used ++ [t]) name
      · obtain ⟨less, reread⟩ := swap (name :: tail)
        rw [List.append_assoc, List.cons_append, List.singleton_append, computeItem, reread]
        simp [joins, other]
    · rw [computeItem_unaliased read joins] at failed
      cases failed
      exact .next swap (Fault.unaliased (first :: used) t) fun read => computeItem_unaliased read joins

theorem orderItem_halted {first : Token} {ts : List Token} {stop : Stop}
    (stream : Stream (first :: ts)) (failed : orderItem (first :: ts) = .error stop) :
    Halted [] orderItem first ts stop := by
  cases read : expression (first :: ts) with
  | error inner =>
    rw [orderItem, read] at failed
    cases failed
    exact (expression_halted stream read).under [] fun refused => by rw [orderItem, refused]
  | ok r =>
    obtain ⟨value, used, t, more, less, rfl, rfl, rest, swap⟩ := expression_behind stream read
    simp only [orderItem, read] at failed
    split at failed
    · next word =>
      split at failed
      · cases failed
      · next unknown =>
        cases failed
        refine .next swap (Fault.unexpected (first :: used) t) fun read => ?_
        rw [orderItem, read]
        simp [word, unknown]
    · cases failed

theorem items_halted {clause : Clause} {item : (ts : List Token) → Except Stop (Reading ParsedExpr ts)}
    (again : Again [] item)
    (spelling : ∀ {ts} {r : Reading ParsedExpr ts}, item ts = .ok r →
      ∃ used, ts = used ++ r.rest ∧ SpellsItem clause used r.value)
    (halted : ∀ {first ts stop}, Stream (first :: ts) → item (first :: ts) = .error stop →
      Halted [] item first ts stop)
    {first : Token} {ts : List Token} {stop : Stop} (stream : Stream (first :: ts))
    (failed : items item (first :: ts) = .error stop) : Halted [] (items item) first ts stop := by
  cases read : item (first :: ts) with
  | error inner =>
    rw [items, read] at failed
    cases failed
    exact (halted stream read).under [] fun refused => by rw [items, refused]
  | ok r =>
    obtain ⟨taken, split, spelled⟩ := spelling read
    obtain ⟨used, t, more, rfl, follows, rfl, rest, swap⟩ := again.behind stream read split spelled.proper
    obtain ⟨value, _, shorter⟩ := r
    dsimp only at follows
    subst follows
    rw [items, read] at failed
    dsimp only at failed
    split at failed
    · next comma =>
      obtain ⟨u, more, rfl, later⟩ := rest.tail (by simp [comma])
      split at failed
      · next inner others =>
        cases failed
        obtain ⟨seen, after, rfl, fault, settled⟩ := items_halted again spelling halted later others
        refine ⟨used ++ t :: u :: seen, after, by simp, ?_, fun other => ?_⟩
        · simpa [Stop.after] using fault.behind (first :: used ++ [t])
        · obtain ⟨less, reread⟩ := swap (u :: (seen ++ other))
          rw [List.append_assoc, List.cons_append, List.cons_append, items, reread]
          simp [comma, settled other]
      · cases failed
    · next single =>
      split at failed
      · cases failed
      · next proper =>
        cases failed
        refine .next swap (Fault.unexpected (first :: used) t) fun read => ?_
        rw [items, read]
        simp [single, proper]
termination_by ts.length

theorem filter_halted {first : Token} {ts : List Token} {stop : Stop} (stream : Stream (first :: ts))
    (visible : first.kind ≠ .eof) (failed : filter (first :: ts) = .error stop) :
    Halted [] filter first ts stop := by
  have blank (ts : List Token) : isBlank (first :: ts) = false := by simpa [isBlank] using visible
  cases read : expression (first :: ts) with
  | error inner =>
    simp only [filter, blank, read] at failed
    cases failed
    obtain ⟨seen, after, whole, fault, settled⟩ := expression_halted stream read
    exact ⟨seen, after, whole, fault, fun other => by simp [filter, blank, settled other]⟩
  | ok r =>
    obtain ⟨value, used, t, more, less, rfl, rfl, rest, swap⟩ := expression_behind stream read
    have other : t.kind ≠ .eof := by
      intro ends
      simp [filter, blank, read, ends] at failed
    simp only [filter, blank, read, other] at failed
    cases failed
    refine ⟨used ++ [t], more, by simp, Fault.unexpected (first :: used) t, fun tail => ?_⟩
    obtain ⟨less, reread⟩ := swap tail
    rw [List.append_assoc, List.singleton_append, filter, blank, reread]
    simp [other]

theorem Stream.eq_singleton {ts : List Token} (stream : Stream ts) (blank : isBlank ts = true) :
    ∃ last, ts = [last] ∧ last.kind = .eof := by
  obtain ⟨body, last, rfl, ends, proper⟩ := stream.ending
  cases body with
  | nil => exact ⟨last, rfl, ends⟩
  | cons t body => exact absurd (by simpa [isBlank] using blank) (proper t List.mem_cons_self)

theorem clause_halted {clause : Clause} {ts : List Token} {stop : Stop} (stream : Stream ts)
    (failed : Parser.clause clause ts = .error stop) :
    stop.cause = .noExpression ∧ (∃ last, ts = [last] ∧ last.kind = .eof) ∨
    ∃ seen after, ts = seen ++ after ∧ Fault seen stop.cause ∧
      ∀ other, Parser.clause clause (seen ++ other) = .error stop := by
  cases blank : isBlank ts with
  | true =>
    have empty : Parser.clause clause ts = .error ⟨.noExpression, []⟩ := by
      cases clause <;> simp [Parser.clause, filter, compute, orderBy, blank, Except.map]
    rw [empty] at failed
    cases failed
    exact .inl ⟨rfl, stream.eq_singleton blank⟩
  | false =>
    right
    obtain ⟨first, ts, rfl⟩ : ∃ first rest, ts = first :: rest := by
      cases ts with
      | nil => cases blank
      | cons first rest => exact ⟨first, rest, rfl⟩
    have visible (ts : List Token) : isBlank (first :: ts) = false := blank
    cases clause with
    | filter =>
      obtain ⟨seen, after, rfl, fault, settled⟩ :=
        filter_halted stream (by simpa [isBlank] using blank) (Outcome.map_eq_error.1 failed)
      refine ⟨first :: seen, after, rfl, fault, fun other => ?_⟩
      exact Outcome.map_eq_error.2 (settled other)
    | compute =>
      simp only [Parser.clause, compute, visible, Bool.false_eq_true, if_false] at failed
      obtain ⟨seen, after, rfl, fault, settled⟩ :=
        items_halted computeItem_again computeItem_spelling computeItem_halted stream failed
      refine ⟨first :: seen, after, rfl, fault, fun other => ?_⟩
      simpa [Parser.clause, compute, visible] using settled other
    | orderBy =>
      simp only [Parser.clause, orderBy, visible, Bool.false_eq_true, if_false] at failed
      obtain ⟨seen, after, rfl, fault, settled⟩ :=
        items_halted orderItem_again orderItem_spelling orderItem_halted stream failed
      refine ⟨first :: seen, after, rfl, fault, fun other => ?_⟩
      simpa [Parser.clause, orderBy, visible] using settled other

end Parser

end ClauseSql
