import ClauseSql.Proofs.JoinedClauses

/-! A printed clause is read back. Its text is parsed to the items of the source, unless it has become too
deep, and with the same items come the same answers. What is printed are the items of a tree, so they must
not be more than a tree can count. -/
namespace ClauseSql

open Text

namespace Pool

theorem items?_eq_of_same {p q : Pool} (reachable : p.Reachable) (other : q.Reachable)
    {source text : String} {clause : Clause} {ts us : List Token} {es fs : List ParsedExpr}
    (parsed : Parser.clause clause ts = .ok es) (reparsed : Parser.clause clause us = .ok fs)
    (same : Expr.readAll (covered source.toList) es = Expr.readAll (covered text.toList) fs) :
    p.items? clause source ts = q.items? clause text us := by
  have alike : Expr.AlikeAll (sameTexts.spans ⟨source.toList, p.generation⟩
      ⟨text.toList, q.generation⟩) es fs := Expr.alikeAll_of_readAll same
  cases clause with
  | filter =>
    obtain ⟨e, built, rfl⟩ := Outcome.map_eq_ok.1 parsed
    obtain ⟨f, rebuilt, rfl⟩ := Outcome.map_eq_ok.1 reparsed
    cases alike with
    | cons alike _ =>
      have kept := Tree.Alike.store alike (reachable.acquire_alike other sameTexts _ _)
      rw [items?, items?, parseFilter_eq, parseFilter_eq, built, rebuilt]
      exact congrArg (fun e => Except.ok (some [e])) (kept.2.view kept.1).eq
  | compute =>
    rw [Parser.clause] at parsed reparsed
    rw [items?, items?, parseCompute_eq, parseCompute_eq, parsed, reparsed]
    have kept := keepItems_alike (.ok alike) reachable other rfl rfl
    exact congrArg Except.ok (Expr.AlikeAll.eq_of_rel kept)
  | orderBy =>
    rw [Parser.clause] at parsed reparsed
    rw [items?, items?, parseOrderBy_eq, parseOrderBy_eq, parsed, reparsed]
    have kept := keepItems_alike (.ok alike) reachable other rfl rfl
    exact congrArg Except.ok (Expr.AlikeAll.eq_of_rel kept)

end Pool

/-- A printed text is parsed to the items that have been parsed from the source. -/
structure ReadsBack (clause : Clause) (source : String) (ts : List Token) (es : List ParsedExpr)
    (text : String) (us : List Token) (fs : List ParsedExpr) : Prop where
  parsed : Parser.clause clause us = .ok fs
  same : Expr.readAll (covered text.toList) fs = Expr.readAll (covered source.toList) es
  printed : Expr.itemsText? (Expr.readAll (covered text.toList) fs) = some text.toList
  stored : ∀ p q : Pool, p.Reachable → q.Reachable →
    p.items? clause text us = q.items? clause source ts
  answered : ∀ p q : Pool, p.Reachable → q.Reachable → ∀ dialect entity,
    (Request.run ⟨clause, dialect, text, entity⟩ p).1 =
      (Request.run ⟨clause, dialect, source, entity⟩ q).1

theorem ReadsBack.of_same {clause : Clause} {source text : String} {ts us : List Token}
    {es fs : List ParsedExpr} (lexed : Token.tokenize source = .ok ts)
    (parsed : Parser.clause clause ts = .ok es)
    (printed : Expr.itemsText? (Expr.readAll (covered source.toList) es) = some text.toList)
    (relexed : Token.tokenize text = .ok us) (reparsed : Parser.clause clause us = .ok fs)
    (same : Expr.readAll (covered text.toList) fs = Expr.readAll (covered source.toList) es) :
    ReadsBack clause source ts es text us fs := by
  have stored (p q : Pool) (reachable : p.Reachable) (other : q.Reachable) :
      p.items? clause text us = q.items? clause source ts :=
    Pool.items?_eq_of_same reachable other reparsed parsed same
  refine ⟨reparsed, same, same ▸ printed, stored, fun p q reachable other dialect entity => ?_⟩
  exact Request.run_eq_of_items relexed lexed (stored p q reachable other)

/-- A parsed clause that is printed and parsed again gives the same items, and with them the same
answers, or the printed text is too deep for the parser; it is not if no item is higher than 64. The
items that are printed are those that any tree of the source holds, if there are handles enough. -/
theorem printed_clauses_read_back {clause : Clause} {source : String} {ts : List Token}
    {es : List ParsedExpr} (lexed : Token.tokenize source = .ok ts)
    (parsed : Parser.clause clause ts = .ok es) :
    (Expr.sizeOfAll es ≤ 2 ^ 32 → ∀ p : Pool, p.Reachable →
      p.items? clause source ts = .ok (some (Expr.readAll (covered source.toList) es))) ∧
    ∃ text us, Expr.itemsText? (Expr.readAll (covered source.toList) es) = some text.toList ∧
      Token.tokenize text = .ok us ∧
      (Grammar.Refused (Parser.clause clause us) ∨
        ∃ fs, ReadsBack clause source ts es text us fs) ∧
      ((∀ e ∈ es, e.bare.height ≤ 64) → ∃ fs, ReadsBack clause source ts es text us fs) := by
  refine ⟨fun room p reachable => Pool.items?_covered reachable source parsed room, ?_⟩
  have low : ∀ e ∈ es, e.bare.height ≤ Expr.heightOfAll (es.map Expr.bare) := fun e member =>
    Expr.heightOfAll_le_iff.1 (Nat.le_refl _) _ (List.mem_map_of_mem member)
  obtain ⟨text, us, fs, n, printed, relexed, shallow, same, answers⟩ :=
    RoundTrip.clause_reparses lexed parsed low
  have whole : (String.ofList text).toList = text := String.toList_ofList
  have back (within : Grammar.WithinAll n fs) :
      ReadsBack clause source ts es (String.ofList text) us fs :=
    .of_same lexed parsed (by rw [whole, printed]) relexed (answers.reads within)
      (by rw [whole, same])
  refine ⟨String.ofList text, us, by rw [whole, printed], relexed, ?_, fun small => ⟨fs, back ?_⟩⟩
  · by_cases within : Grammar.WithinAll n fs
    · exact .inr ⟨fs, back within⟩
    · exact .inl (answers.refused within)
  · have bound : Expr.heightOfAll (es.map Expr.bare) ≤ 64 :=
      Expr.heightOfAll_le_iff.2 (by simpa using small)
    have limit : Parser.nestingLimit = 128 := rfl
    refine ⟨by omega, fun f member => ?_⟩
    have height := RoundTrip.bare_height_le same small f member
    omega

theorem printed_clauses_read_back_order :
    ∃ ts es us fs, Token.tokenize "NOT a eq -1.5 desc,concat( b,'x''y')" = .ok ts ∧
      Parser.clause .orderBy ts = .ok es ∧ (∀ e ∈ es, e.bare.height ≤ 64) ∧
      ReadsBack .orderBy "NOT a eq -1.5 desc,concat( b,'x''y')" ts es
        "(not (a eq -1.5)) desc, concat(b, 'x''y') asc" us fs := by
  let ts : List Token :=
    [⟨.not, 0, "NOT".toList⟩, ⟨.identifier, 4, ['a']⟩, ⟨.operator (.comparison .eq), 6, "eq".toList⟩,
      ⟨.literal .number, 9, "-1.5".toList⟩, ⟨.identifier, 14, "desc".toList⟩, ⟨.comma, 18, [',']⟩,
      ⟨.functionName, 19, "concat".toList⟩, ⟨.openParen, 25, ['(']⟩, ⟨.identifier, 27, ['b']⟩,
      ⟨.comma, 28, [',']⟩, ⟨.literal .string, 29, "'x''y'".toList⟩, ⟨.closeParen, 35, [')']⟩,
      ⟨.eof, 36, []⟩]
  let es : List ParsedExpr :=
    [.ordered (.not (.binary (.comparison .eq) (.path ⟨4, 5⟩) (.literal .number ⟨9, 13⟩))) true,
      .ordered (.call ⟨19, 25⟩ [.path ⟨27, 28⟩, .literal .string ⟨29, 35⟩]) false]
  have lexed : Token.tokenize "NOT a eq -1.5 desc,concat( b,'x''y')" = .ok ts := by decide +kernel
  have parsed : Parser.clause .orderBy ts = .ok es := by with_unfolding_all rfl
  have low : ∀ e ∈ es, e.bare.height ≤ 64 := by simp [es, Expr.bare, Expr.height, Expr.heightOfAll]
  have written : Expr.itemsText?
      (Expr.readAll (covered "NOT a eq -1.5 desc,concat( b,'x''y')".toList) es) =
      some "(not (a eq -1.5)) desc, concat(b, 'x''y') asc".toList := by decide +kernel
  obtain ⟨-, text, us, printed, -, -, back⟩ := printed_clauses_read_back lexed parsed
  rw [written, Option.some.injEq, String.toList_inj] at printed
  obtain ⟨fs, reads⟩ := back low
  exact ⟨ts, es, us, fs, lexed, parsed, low, printed ▸ reads⟩

/-- Of as many items as there are handles nothing is printed, and no text is no clause. -/
theorem full_order_prints_nothing :
    ∃ ts es, Token.tokenize (repeated "A" (2 ^ 32 - 1)) = .ok ts ∧ Parser.clause .orderBy ts = .ok es ∧
      es.length = 2 ^ 32 ∧
      ∃ items, Pool.default.items? .orderBy (repeated "A" (2 ^ 32 - 1)) ts = .ok (some items) ∧
        Expr.itemsText? items = some "".toList ∧
        ∃ us, Token.tokenize "" = .ok us ∧ Parser.clause .orderBy us = .error ⟨.noExpression, []⟩ := by
  have many := Itemized.single_letter.repeated (by decide) (2 ^ 32 - 1)
  obtain ⟨ts, es, lexed, parsed, length, items⟩ :=
    many.items?_of_full (by rw [List.length_replicate]; rfl) (by decide)
  exact ⟨ts, es, lexed, parsed, length, [], items _, rfl, [⟨.eof, 0, []⟩], by decide +kernel, rfl⟩

end ClauseSql
