import ClauseSql.Proofs.ClauseTyping
import ClauseSql.Proofs.ModelShapes
import ClauseSql.Proofs.StoredParts

/-! The properties that a model reads are those that are written in its source. Each token that names a
property becomes a path of the expression and then a property of the model, and all of them stay in
order. In an order clause the words for directions look like properties; they are told apart by what
stands before them, for no operand stands directly behind another one. -/
namespace ClauseSql

open Typing Grammar

theorem firstOccurrences_eq_eraseDups (items : List String) :
    firstOccurrences items = items.eraseDups := by
  induction items using List.reverseRecOn with
  | nil => rfl
  | append_singleton items item ih =>
    have step : firstOccurrences (items ++ [item]) =
        if (firstOccurrences items).contains item then firstOccurrences items
        else firstOccurrences items ++ [item] := by
      simp [firstOccurrences]
    rw [step, ih, List.eraseDups_append]
    by_cases known : item ∈ items
    · simp [known, List.removeAll]
    · simp [known, List.removeAll, List.eraseDups_cons]

def Token.namesProperty (t : Token) : Bool := t.kind == .identifier || t.kind == .path

def TokenKind.endsOperand : TokenKind → Bool
  | .identifier => true
  | .path => true
  | .literal _ => true
  | .closeParen => true
  | _ => false

/-- The tokens but for the words for directions. These stand directly behind an operand, where no
property can stand. -/
def withoutDirections (behind : Bool) : List Token → List Token
  | [] => []
  | t :: ts =>
    let rest := withoutDirections t.kind.endsOperand ts
    if behind && t.kind == .identifier && (Parser.direction? t.lexeme).isSome then rest else t :: rest

mutual
theorem Expr.paths_read (text? : Span → Option (List Char)) (e : ParsedExpr) :
    (e.read text?).paths = e.paths.map text? := by
  match e with
  | .literal _ _ => rfl
  | .path _ => rfl
  | .not operand => simp only [read, paths, operand.paths_read]
  | .binary _ left right => simp only [read, paths, left.paths_read, right.paths_read, List.map_append]
  | .call _ args => simp only [read, paths, Expr.pathsOfAll_readAll text? args]
  | .named value _ => simp only [read, paths, value.paths_read]
  | .ordered value _ => simp only [read, paths, value.paths_read]
  | .broken reason => exact nomatch reason
  | .brokenCall _ reason => exact nomatch reason
theorem Expr.pathsOfAll_readAll (text? : Span → Option (List Char)) (es : List ParsedExpr) :
    Expr.pathsOfAll (Expr.readAll text? es) = (Expr.pathsOfAll es).map text? := by
  match es with
  | [] => rfl
  | e :: es =>
    simp only [readAll, pathsOfAll, e.paths_read, Expr.pathsOfAll_readAll text? es, List.map_append]
end

namespace Grammar

mutual
theorem Spells.paths_eq {ts : List Token} {e : ParsedExpr} :
    Spells ts e → e.paths = (ts.filter Token.namesProperty).map Token.span
  | .literal kind => by simp [Expr.paths, Token.namesProperty, kind]
  | .path kind => by rcases kind with kind | kind <;> simp [Expr.paths, Token.namesProperty, kind]
  | .not kind phrase => by simpa [Expr.paths, Token.namesProperty, kind] using phrase.paths_eq
  | .binary kind left right => by
    simp [Expr.paths, Token.namesProperty, kind, left.paths_eq, right.paths_eq]
  | .call calls opens closes args => by
    simpa [Expr.paths, Token.namesProperty, calls, opens, closes] using args.paths_eq
  | .group opens closes phrase => by
    simpa [Token.namesProperty, opens, closes] using phrase.paths_eq
theorem SpellsAll.paths_eq {ts : List Token} {es : List ParsedExpr} :
    SpellsAll ts es → Expr.pathsOfAll es = (ts.filter Token.namesProperty).map Token.span
  | .none => rfl
  | .one phrase => by simpa [Expr.pathsOfAll] using phrase.paths_eq
  | .more comma phrase others => by
    rw [Expr.pathsOfAll, phrase.paths_eq, others.paths_eq]
    simp [Token.namesProperty, comma]
end

theorem withoutDirections_cons {t : Token} (other : t.kind ≠ .identifier) (behind : Bool)
    (ts : List Token) :
    withoutDirections behind (t :: ts) = t :: withoutDirections t.kind.endsOperand ts := by
  simp [withoutDirections, other]

mutual
theorem Spells.undirected {ts : List Token} {e : ParsedExpr} :
    Spells ts e → ∀ rest, withoutDirections false (ts ++ rest) = ts ++ withoutDirections true rest
  | .literal kind, rest => by simp [withoutDirections, kind, TokenKind.endsOperand]
  | .path kind, rest => by
    rcases kind with kind | kind <;> simp [withoutDirections, kind, TokenKind.endsOperand]
  | .not kind phrase, rest => by
    rw [List.cons_append, withoutDirections_cons (by simp [kind]), kind]
    exact congrArg (List.cons _) (phrase.undirected rest)
  | .binary kind left right, rest => by
    rw [List.append_assoc, left.undirected, List.cons_append, withoutDirections_cons (by simp [kind]), kind,
      List.append_assoc]
    exact congrArg (_ ++ _ :: ·) (right.undirected rest)
  | @Spells.call _ _ closing _ _ calls opens closes args, rest => by
    have inside := args.undirected rest (show closing.kind ≠ .identifier by simp [closes])
    simp only [List.cons_append, List.append_assoc, List.nil_append]
    rw [withoutDirections_cons (by simp [calls]), calls, withoutDirections_cons (by simp [opens]), opens]
    rw [closes] at inside
    exact congrArg (_ :: _ :: ·) inside
  | @Spells.group _ closing _ _ opens closes phrase, rest => by
    have inside := phrase.undirected (closing :: rest)
    simp only [List.cons_append, List.append_assoc, List.nil_append]
    rw [withoutDirections_cons (by simp [opens]), opens]
    rw [withoutDirections_cons (by simp [closes]), closes] at inside
    exact congrArg (_ :: ·) inside
theorem SpellsAll.undirected {ts : List Token} {es : List ParsedExpr} :
    SpellsAll ts es → ∀ {t : Token} (rest : List Token), t.kind ≠ .identifier →
      withoutDirections false (ts ++ t :: rest) = ts ++ t :: withoutDirections t.kind.endsOperand rest
  | .none, t, rest, other => withoutDirections_cons other false rest
  | .one phrase, t, rest, other => by rw [phrase.undirected, withoutDirections_cons other]
  | .more comma phrase others, t, rest, other => by
    rw [List.append_assoc, phrase.undirected, List.cons_append, withoutDirections_cons (by simp [comma]),
      comma, List.append_assoc]
    exact congrArg (_ ++ _ :: ·) (others.undirected rest other)
end

theorem SpellsItem.undirected {ts : List Token} {e : ParsedExpr} (spelled : SpellsItem .orderBy ts e)
    {t : Token} (closes : t.kind = .comma ∨ t.kind = .eof) (rest : List Token) :
    ∃ kept, withoutDirections false (ts ++ t :: rest) = kept ++ t :: withoutDirections false rest ∧
      e.paths = (kept.filter Token.namesProperty).map Token.span := by
  have other : t.kind ≠ .identifier := by obtain kind | kind := closes <;> simp [kind]
  have next : t.kind.endsOperand = false := by obtain kind | kind := closes <;> rw [kind] <;> rfl
  cases spelled with
  | ordered phrase =>
    refine ⟨ts, ?_, phrase.paths_eq⟩
    rw [phrase.undirected, withoutDirections_cons other, next]
  | @directed used word _ _ phrase is direction =>
    refine ⟨used, ?_, phrase.paths_eq⟩
    have left : withoutDirections true (word :: t :: rest) = withoutDirections true (t :: rest) := by
      rw [withoutDirections, is, direction]
      rfl
    rw [List.append_assoc, phrase.undirected, List.singleton_append, left, withoutDirections_cons other,
      next]

theorem SpellsItems.undirected {ts : List Token} {es : List ParsedExpr}
    (spelled : SpellsItems .orderBy ts es) {last : Token} (ends : last.kind = .eof) :
    ∃ kept, withoutDirections false (ts ++ [last]) = kept ++ [last] ∧
      Expr.pathsOfAll es = (kept.filter Token.namesProperty).map Token.span := by
  induction spelled with
  | one item =>
    obtain ⟨kept, left, paths⟩ := item.undirected (.inr ends) []
    exact ⟨kept, left, by rw [Expr.pathsOfAll, Expr.pathsOfAll, List.append_nil, paths]⟩
  | @more comma _ us _ _ is item _ ih =>
    obtain ⟨others, behind, pathsBehind⟩ := ih
    obtain ⟨kept, left, paths⟩ := item.undirected (.inl is) (us ++ [last])
    refine ⟨kept ++ comma :: others, ?_, ?_⟩
    · rw [List.append_assoc, List.cons_append, left, behind, List.append_assoc, List.cons_append]
    · rw [Expr.pathsOfAll, paths, pathsBehind]
      simp [Token.namesProperty, is]

end Grammar

theorem mem_of_withoutDirections {t : Token} {behind : Bool} {ts : List Token}
    (kept : t ∈ withoutDirections behind ts) : t ∈ ts := by
  induction ts generalizing behind with
  | nil => exact kept
  | cons u ts ih =>
    rw [withoutDirections] at kept
    split at kept
    · exact List.mem_cons_of_mem u (ih kept)
    · obtain rfl | later := List.mem_cons.1 kept
      · exact List.mem_cons_self
      · exact List.mem_cons_of_mem u (ih later)

theorem paths_eq_texts {source : String} {ts kept : List Token} (lexed : Token.tokenize source = .ok ts)
    (known : ∀ t ∈ kept, t ∈ ts) {paths : List String}
    (read : paths.map (fun path => some path.toList) = (kept.map Token.span).map (covered source.toList)) :
    paths = kept.map Token.text := by
  have distinct : Function.Injective fun path : String => some path.toList := fun a b same =>
    String.toList_inj.1 (Option.some.inj same)
  refine distinct.list_map (read.trans ?_)
  rw [List.map_map, List.map_map, List.map_inj_left]
  intro t member
  have text := Lexing.tokenize_slice lexed t (known t member)
  simpa [Token.text, Token.span, covered] using text

section Resolved

variable {entity : Entity}

def Resolved (entity : Entity) (paths : List String) : Prop :=
  ∀ path ∈ paths, ∃ found, entity.resolve path = .ok found

theorem Resolved.append {paths others : List String} (first : Resolved entity paths)
    (second : Resolved entity others) : Resolved entity (paths ++ others) :=
  List.forall_mem_append.2 ⟨first, second⟩

mutual
theorem Operand.resolved_paths {o : Operand} {type : ValueType} (typed : o.HasType entity type) :
    Resolved entity o.paths := by
  match o with
  | .property path =>
    cases typed with
    | property found => exact List.forall_mem_singleton.2 ⟨_, found⟩
  | .literal _ => exact List.forall_mem_nil _
  | .call _ _ =>
    cases typed with
    | call _ _ _ accepted => exact Operand.resolved_pathsOfAll accepted
  | .arithmetic _ _ _ =>
    cases typed with
    | arithmetic left right => exact (Operand.resolved_paths left).append (Operand.resolved_paths right)
theorem Operand.resolved_pathsOfAll {params : List Param} {values : List Operand}
    (accepted : Operand.Accepts entity params values) : Resolved entity (Operand.pathsOfAll values) := by
  match values with
  | [] => exact List.forall_mem_nil _
  | _ :: _ =>
    cases accepted with
    | cons typed _ others => exact (Operand.resolved_paths typed).append (Operand.resolved_pathsOfAll others)
end

theorem Filter.resolved_paths {f : Filter} (typed : f.WellTyped entity) : Resolved entity f.paths := by
  induction typed with
  | comparison left right _ _ => exact (Operand.resolved_paths left).append (Operand.resolved_paths right)
  | stringMatch target => exact Operand.resolved_paths target
  | logical _ _ ih jh => exact ih.append jh
  | not _ ih => exact ih
  | constant => exact List.forall_mem_nil _

theorem Resolved.firstOccurrences {paths : List String} (resolved : Resolved entity paths) :
    Resolved entity (firstOccurrences paths) := by
  rw [firstOccurrences_eq_eraseDups]
  intro path member
  exact resolved path (List.mem_eraseDups.1 member)

end Resolved

theorem OrderItem.paths_eq {entity : Entity} {es : List TreeExpr} {made : List OrderItem}
    (models : List.Forall₂ (OrderItem.Models entity) es made) :
    (made.flatMap fun item => item.operand.paths).map (fun path => some path.toList) =
      Expr.pathsOfAll es := by
  induction models with
  | nil => rfl
  | cons first _ ih =>
    obtain ⟨value, type, rfl, read⟩ := first
    rw [List.flatMap_cons, List.map_append, ih, (operand_models read).paths_eq]
    rfl

namespace Compiler

variable {source : String} {ts : List Token} (lexed : Token.tokenize source = .ok ts) {entity : Entity}
  {p : Pool} (reachable : p.Reachable)
include lexed reachable

theorem filterModel_paths {f : Filter} (few : ts.length ≤ handles)
    (done : (filterModel source entity p).1 = .ok f) :
    f.paths = (ts.filter Token.namesProperty).map Token.text := by
  obtain ⟨_, item, relexed, seen, typed⟩ := filterModel_items done
  cases lexed.symm.trans relexed
  obtain ⟨body, last, es, rfl, ends, spelled, read⟩ := Pool.items?_spelled reachable source lexed few seen
  refine paths_eq_texts lexed (fun t member => List.mem_of_mem_filter member) ?_
  have body_only : (body ++ [last]).filter Token.namesProperty = body.filter Token.namesProperty := by
    simp [Token.namesProperty, ends]
  cases spelled with
  | one spelled =>
    cases spelled with
    | condition phrase =>
      cases read
      rw [(filter_models typed).paths_eq, Expr.paths_read, phrase.paths_eq, body_only]
  | more _ _ others => cases others <;> cases read

theorem orderByModel_paths {made : List OrderItem} (few : ts.length ≤ handles)
    (done : (orderByModel source entity p).1 = .ok made) :
    made.flatMap (fun item => item.operand.paths) =
      ((withoutDirections false ts).filter Token.namesProperty).map Token.text := by
  obtain ⟨_, items, relexed, seen, typed⟩ := orderByModel_items done
  cases lexed.symm.trans relexed
  obtain ⟨body, last, es, rfl, ends, spelled, rfl⟩ := Pool.items?_spelled reachable source lexed few seen
  obtain ⟨kept, left, paths⟩ := spelled.undirected ends
  have kept_only : (kept ++ [last]).filter Token.namesProperty = kept.filter Token.namesProperty := by
    simp [Token.namesProperty, ends]
  refine paths_eq_texts lexed (fun t member => ?_) ?_
  · exact mem_of_withoutDirections (List.mem_of_mem_filter member)
  · rw [OrderItem.paths_eq (orderBy_models typed), Expr.pathsOfAll_readAll, paths, left, kept_only]

end Compiler

/-- The properties that a filter reads are the texts of the tokens that name properties, each once and in
the order in which they first appear; those of an order clause are so too, but for the words for
directions. All of them are known to the entity. A tree must be able to tell its nodes apart, so there
are no more tokens than handles. -/
theorem referenced_properties_are_written {source : String} {ts : List Token}
    (lexed : Token.tokenize source = .ok ts) (entity : Entity) {p : Pool} (reachable : p.Reachable) :
    (∀ f, (Compiler.filterModel source entity p).1 = .ok f →
      (∀ path ∈ f.referenced, ∃ found, entity.resolve path = .ok found) ∧
      (ts.length ≤ 2 ^ 32 →
        f.referenced = ((ts.filter Token.namesProperty).map Token.text).eraseDups)) ∧
    ∀ made, (Compiler.orderByModel source entity p).1 = .ok made →
      (∀ path ∈ OrderItem.referenced made, ∃ found, entity.resolve path = .ok found) ∧
      (ts.length ≤ 2 ^ 32 →
        OrderItem.referenced made =
          (((withoutDirections false ts).filter Token.namesProperty).map Token.text).eraseDups) := by
  refine ⟨fun f done => ⟨?_, fun few => ?_⟩, fun made done => ⟨?_, fun few => ?_⟩⟩
  · obtain ⟨_, _, -, -, typed⟩ := Compiler.filterModel_items done
    exact (Filter.resolved_paths (filter_sound typed).2).firstOccurrences
  · rw [Filter.referenced, firstOccurrences_eq_eraseDups,
      Compiler.filterModel_paths lexed reachable few done]
  · obtain ⟨_, _, -, -, typed⟩ := Compiler.orderByModel_items done
    refine Resolved.firstOccurrences fun path member => ?_
    obtain ⟨item, listed, inside⟩ := List.mem_flatMap.1 member
    obtain ⟨⟨type, typed⟩, -⟩ := (orderBy_sound typed).2 item listed
    exact Operand.resolved_paths typed path inside
  · rw [OrderItem.referenced, firstOccurrences_eq_eraseDups,
      Compiler.orderByModel_paths lexed reachable few done]

theorem referenced_properties_are_written_owner :
    let entity : Entity :=
      { name := "Account"
        members := [("Name", .primitive ⟨"name", .text, true, none⟩),
          ("Owner", .navigation "owner" [("Name", .primitive ⟨"name", .text, true, none⟩)]),
          ("asc", .primitive ⟨"asc", .integer, true, none⟩)] }
    (∃ f, (Compiler.filterModel "Owner/Name eq Name or contains(Name,'asc')" entity .default).1 = .ok f ∧
      f.referenced = ["Owner/Name", "Name"]) ∧
    ∃ made, (Compiler.orderByModel "asc asc,concat(Owner/Name,Name) desc,asc" entity .default).1 =
        .ok made ∧
      OrderItem.referenced made = ["asc", "Owner/Name", "Name"] := by
  intro entity
  let ts : List Token :=
    [⟨.path, 0, "Owner/Name".toList⟩, ⟨.operator (.comparison .eq), 11, "eq".toList⟩,
      ⟨.identifier, 14, "Name".toList⟩, ⟨.operator (.connective .or), 19, "or".toList⟩,
      ⟨.functionName, 22, "contains".toList⟩, ⟨.openParen, 30, ['(']⟩, ⟨.identifier, 31, "Name".toList⟩,
      ⟨.comma, 35, [',']⟩, ⟨.literal .string, 36, "'asc'".toList⟩, ⟨.closeParen, 41, [')']⟩, ⟨.eof, 42, []⟩]
  let us : List Token :=
    [⟨.identifier, 0, "asc".toList⟩, ⟨.identifier, 4, "asc".toList⟩, ⟨.comma, 7, [',']⟩,
      ⟨.functionName, 8, "concat".toList⟩, ⟨.openParen, 14, ['(']⟩, ⟨.path, 15, "Owner/Name".toList⟩,
      ⟨.comma, 25, [',']⟩, ⟨.identifier, 26, "Name".toList⟩, ⟨.closeParen, 30, [')']⟩,
      ⟨.identifier, 32, "desc".toList⟩, ⟨.comma, 36, [',']⟩, ⟨.identifier, 37, "asc".toList⟩, ⟨.eof, 40, []⟩]
  have lexed : Token.tokenize "Owner/Name eq Name or contains(Name,'asc')" = .ok ts := by decide +kernel
  have relexed : Token.tokenize "asc asc,concat(Owner/Name,Name) desc,asc" = .ok us := by decide +kernel
  let tree : Tree := ⟨"Owner/Name eq Name or contains(Name,'asc')".toList, 1,
    ⟨#[.path ⟨0, 10⟩, .path ⟨14, 18⟩, .binary (.comparison .eq) ⟨0, 1⟩ ⟨1, 1⟩, .path ⟨31, 35⟩,
      .literal .string ⟨36, 41⟩, .call ⟨22, 30⟩ ⟨0, 2⟩, .binary (.connective .or) ⟨2, 1⟩ ⟨5, 1⟩],
      #[⟨3, 1⟩, ⟨4, 1⟩], 32⟩⟩
  have parsed : (Pool.default.parseFilter "Owner/Name eq Name or contains(Name,'asc')" ts).1 =
      .ok (tree, ⟨6, 1⟩) := by decide +kernel
  have filter : (Compiler.filterModel "Owner/Name eq Name or contains(Name,'asc')" entity .default).1 =
      .ok (.logical .or (.comparison .equal (.property "Owner/Name") (.property "Name"))
        (.stringMatch .contains (.property "Name") "asc")) :=
    Compiler.model_eq_ok.2 ⟨ts, lexed, tree, ⟨6, 1⟩, parsed, rfl⟩
  let list : Tree := ⟨"asc asc,concat(Owner/Name,Name) desc,asc".toList, 1,
    ⟨#[.path ⟨0, 3⟩, .ordered ⟨0, 1⟩ false, .path ⟨15, 25⟩, .path ⟨26, 30⟩, .call ⟨8, 14⟩ ⟨0, 2⟩,
      .ordered ⟨4, 1⟩ true, .path ⟨37, 40⟩, .ordered ⟨6, 1⟩ false],
      #[⟨2, 1⟩, ⟨3, 1⟩, ⟨1, 1⟩, ⟨5, 1⟩, ⟨7, 1⟩], 32⟩⟩
  have reparsed : (Pool.default.parseOrderBy "asc asc,concat(Owner/Name,Name) desc,asc" us).1 =
      .ok (list, ⟨2, 3⟩) := by decide +kernel
  have order : (Compiler.orderByModel "asc asc,concat(Owner/Name,Name) desc,asc" entity .default).1 =
      .ok [⟨.property "asc", false⟩, ⟨.call .concat [.property "Owner/Name", .property "Name"], true⟩,
        ⟨.property "asc", false⟩] :=
    Compiler.model_eq_ok.2 ⟨us, relexed, list, ⟨2, 3⟩, reparsed, rfl⟩
  have pool : Pool.default.Reachable := .ofCapacity _
  refine ⟨⟨_, filter, ?_⟩, ⟨_, order, ?_⟩⟩
  · exact (((referenced_properties_are_written lexed entity pool).1 _ filter).2 (by decide)).trans (by decide)
  · exact (((referenced_properties_are_written relexed entity pool).2 _ order).2 (by decide)).trans
      (by decide)

/-- Of as many items as there are handles no property is reported. -/
theorem full_order_references_nothing :
    let entity : Entity := { name := "Item", members := [("A", .primitive ⟨"a", .integer, true, none⟩)] }
    ∃ ts, Token.tokenize (repeated "A" (2 ^ 32 - 1)) = .ok ts ∧
      "A" ∈ (((withoutDirections false ts).filter Token.namesProperty).map Token.text).eraseDups ∧
      ∃ made, (Compiler.orderByModel (repeated "A" (2 ^ 32 - 1)) entity .default).1 = .ok made ∧
        OrderItem.referenced made = [] := by
  intro entity
  have lexed : Token.tokenize "A" = .ok [⟨.identifier, 0, ['A']⟩, ⟨.eof, 1, []⟩] := by decide +kernel
  have model := (Itemized.single_letter.repeated (by decide) (2 ^ 32 - 1)).orderByModel_of_full
    (by rw [List.length_replicate]; rfl) entity .default
  obtain ⟨_, whole, -, rest, rfl⟩ := Lexing.tokenize_repeated lexed (2 ^ 32 - 1)
  refine ⟨_, whole, List.mem_eraseDups.2 ?_, [], model, rfl⟩
  exact List.mem_map.2 ⟨⟨.identifier, 0, ['A']⟩, List.mem_cons_self, rfl⟩

end ClauseSql
