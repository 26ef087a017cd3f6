import ClauseSql.Expr.Parser

/-! What each part of the parser has done when it succeeds: which reading it started from, which token
it found behind it, and what it made of them. -/
namespace ClauseSql.Parser

theorem arguments_ok {rule : Rule} {openedAt : Nat} {ts : List Token}
    {r : Reading (List ParsedExpr × Nat) ts} (done : arguments rule openedAt ts = .ok r) :
    ∃ arg : Reading Sized ts, ∃ t rest, rule 0 ts = .ok arg ∧ arg.rest = t :: rest ∧
      ((t.kind = .closeParen ∧ r.value = ([arg.value.expr], arg.value.height) ∧ r.rest = rest) ∨
        (t.kind = .comma ∧ ∃ more : Reading (List ParsedExpr × Nat) rest,
          arguments rule openedAt rest = .ok more ∧
          r.value = (arg.value.expr :: more.value.1, max arg.value.height more.value.2) ∧
          r.rest = more.rest)) := by
  rw [arguments] at done
  split at done
  · cases done
  · next arg after shorter read =>
    split at done
    · cases done
    · next t rest shorter =>
      refine ⟨_, t, rest, read, rfl, ?_⟩
      split at done
      · next closes =>
        cases done
        exact .inl ⟨closes, rfl, rfl⟩
      · split at done
        · cases done
        · split at done
          · next comma =>
            split at done
            · cases done
            · next more others =>
              cases done
              exact .inr ⟨comma, more, others, rfl, rfl⟩
          · cases done

theorem bounded_ok {ts : List Token} {position : Nat} {parts : List ParsedExpr}
    {r result : Reading Sized ts} (done : bounded position parts r = .ok result) :
    result = r ∧ r.value.height ≤ nestingLimit := by
  unfold bounded at done
  split at done
  · cases done
  · next low => exact ⟨(Except.ok.inj done).symm, Nat.not_lt.mp low⟩

theorem call_ok {rule : Rule} {name : Token} {ts : List Token} {r : Reading Sized (name :: ts)}
    (done : call rule name ts = .ok r) :
    ∃ opening t rest, ts = opening :: t :: rest ∧ opening.kind = .openParen ∧
      ((t.kind = .closeParen ∧ r.value = ⟨.call name.span [], 1⟩ ∧ r.rest = rest) ∨
        ∃ args : Reading (List ParsedExpr × Nat) (t :: rest),
          arguments rule opening.start (t :: rest) = .ok args ∧
          args.value.2 + 1 ≤ nestingLimit ∧
          r.value = ⟨.call name.span args.value.1, args.value.2 + 1⟩ ∧ r.rest = args.rest) := by
  unfold call at done
  split at done
  · cases done
  · cases done
  · next opening t rest =>
    split at done
    · next opens =>
      refine ⟨opening, t, rest, rfl, opens, ?_⟩
      split at done
      · next closes =>
        cases done
        exact .inl ⟨closes, rfl, rfl⟩
      · split at done
        · cases done
        · split at done
          · cases done
          · next args read =>
            obtain ⟨rfl, low⟩ := bounded_ok done
            exact .inr ⟨args, read, low, rfl, rfl⟩
    · cases done

theorem parenthesized_ok {rule : Rule} {opening : Token} {ts : List Token}
    {r : Reading Sized (opening :: ts)} (done : parenthesized rule opening ts = .ok r) :
    ∃ inner : Reading Sized ts, ∃ t, rule 0 ts = .ok inner ∧ inner.rest = t :: r.rest ∧
      t.kind = .closeParen ∧ r.value = inner.value := by
  unfold parenthesized at done
  split at done
  · cases done
  · next inner after shorter read =>
    split at done
    · cases done
    · next t rest shorter =>
      split at done
      · next closes =>
        cases done
        exact ⟨_, t, read, rfl, closes, rfl⟩
      · cases done

theorem computeItem_ok {ts : List Token} {r : Reading ParsedExpr ts}
    (done : computeItem ts = .ok r) :
    ∃ value : Reading Sized ts, ∃ t name, expression ts = .ok value ∧
      value.rest = t :: name :: r.rest ∧ t.kind = .asWord ∧ name.kind = .identifier ∧
      r.value = .named value.value.expr name.span := by
  unfold computeItem at done
  split at done
  · cases done
  · next value after shorter read =>
    split at done
    · cases done
    · cases done
    · next t name rest shorter =>
      split at done
      · next joins =>
        split at done
        · next names =>
          cases done
          exact ⟨_, t, name, read, rfl, joins, names, rfl⟩
        · cases done
      · cases done

theorem orderItem_ok {ts : List Token} {r : Reading ParsedExpr ts} (done : orderItem ts = .ok r) :
    ∃ value : Reading Sized ts, expression ts = .ok value ∧
      ((r.rest = value.rest ∧ r.value = .ordered value.value.expr false) ∨
        ∃ t descending, value.rest = t :: r.rest ∧ t.kind = .identifier ∧
          direction? t.lexeme = some descending ∧
          r.value = .ordered value.value.expr descending) := by
  unfold orderItem at done
  split at done
  · cases done
  · next value after shorter read =>
    refine ⟨_, read, ?_⟩
    split at done
    · cases done
      exact .inl ⟨rfl, rfl⟩
    · next t rest shorter =>
      split at done
      · next word =>
        split at done
        · next descending direction =>
          cases done
          exact .inr ⟨t, descending, rfl, word, direction, rfl⟩
        · cases done
      · cases done
        exact .inl ⟨rfl, rfl⟩

theorem items_ok {item : (ts : List Token) → Except Stop (Reading ParsedExpr ts)} {ts : List Token}
    {es : List ParsedExpr} (done : items item ts = .ok es) :
    ∃ first : Reading ParsedExpr ts, item ts = .ok first ∧
      ((es = [first.value] ∧ ∀ t ∈ first.rest.head?, t.kind = .eof) ∨
        ∃ t rest more, first.rest = t :: rest ∧ t.kind = .comma ∧ items item rest = .ok more ∧
          es = first.value :: more) := by
  rw [items] at done
  split at done
  · cases done
  · next first after shorter read =>
    refine ⟨_, read, ?_⟩
    split at done
    · cases done
      exact .inl ⟨rfl, by simp⟩
    · next t rest shorter =>
      split at done
      · next comma =>
        split at done
        · cases done
        · next more others =>
          cases done
          exact .inr ⟨t, rest, more, rfl, comma, others, rfl⟩
      · split at done
        · next ends =>
          cases done
          exact .inl ⟨rfl, by simpa using ends⟩
        · cases done

theorem filter_ok {ts : List Token} {e : ParsedExpr} (done : filter ts = .ok e) :
    ∃ root : Reading Sized ts, expression ts = .ok root ∧ e = root.value.expr ∧
      ∀ t ∈ root.rest.head?, t.kind = .eof := by
  unfold filter at done
  split at done
  · cases done
  · split at done
    · cases done
    · next root shorter read =>
      cases done
      exact ⟨_, read, rfl, by simp⟩
    · next root t rest shorter read =>
      split at done
      · next ends =>
        cases done
        exact ⟨_, read, rfl, by simpa using ends⟩
      · cases done

end ClauseSql.Parser
