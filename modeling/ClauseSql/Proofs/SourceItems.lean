import ClauseSql.Proofs.ModelShapes
import ClauseSql.Proofs.StoredParts

/-! The items of a clause, cut out of its tokens. A phrase closes every bracket that it opens, so the
commas outside all brackets are those between the items. -/
namespace ClauseSql

open Grammar Typing

def TokenKind.nesting (depth : Nat) : TokenKind → Nat
  | .openParen => depth + 1
  | .closeParen => depth - 1
  | _ => depth

namespace Token

/-- The tokens, cut at each comma outside all brackets. At the start `depth` brackets are open. -/
def cut (depth : Nat) : List Token → List (List Token)
  | [] => [[]]
  | t :: ts =>
    if t.kind = .comma ∧ depth = 0 then [] :: cut depth ts
    else (cut (t.kind.nesting depth) ts).modifyHead (t :: ·)

def items (ts : List Token) : List (List Token) := cut 0 ts.dropLast

def Uncut (depth : Nat) (ts : List Token) : Prop :=
  ∀ us, cut depth (ts ++ us) = (cut depth us).modifyHead (ts ++ ·)

namespace Uncut

variable {depth : Nat} {ts us : List Token}

theorem nil : Uncut depth [] := by
  intro us
  rw [List.nil_append]
  cases cut depth us <;> rfl

theorem single {t : Token} (level : t.kind.nesting depth = depth)
    (inside : ¬ (t.kind = .comma ∧ depth = 0)) : Uncut depth [t] := by
  intro us
  rw [List.singleton_append, cut, if_neg inside, level]
  rfl

theorem append (first : Uncut depth ts) (second : Uncut depth us) : Uncut depth (ts ++ us) := by
  intro vs
  rw [List.append_assoc, first, second, List.modifyHead_modifyHead]
  simp only [Function.comp_def, List.append_assoc]

theorem group {opening closing : Token} (opens : opening.kind = .openParen)
    (closes : closing.kind = .closeParen) (inner : Uncut (depth + 1) ts) :
    Uncut depth (opening :: (ts ++ [closing])) := by
  intro us
  rw [List.cons_append, List.append_assoc, cut, if_neg (by simp [opens]), opens, TokenKind.nesting, inner,
    List.singleton_append, cut, if_neg (by simp [closes]), closes, TokenKind.nesting, Nat.add_sub_cancel,
    List.modifyHead_modifyHead, List.modifyHead_modifyHead]
  simp [Function.comp_def]

end Uncut

end Token

open Token

namespace Grammar

mutual
theorem Spells.uncut {ts : List Token} {e : ParsedExpr} :
    Spells ts e → ∀ depth, Uncut depth ts
  | .literal kind, depth => .single (by rw [kind]; rfl) (by simp [kind])
  | .path kind, depth => by
    obtain kind | kind := kind
    all_goals exact .single (by rw [kind]; rfl) (by simp [kind])
  | .not kind phrase, depth =>
    .append (.single (by rw [kind]; rfl) (by simp [kind])) (phrase.uncut depth)
  | .binary kind left right, depth =>
    (left.uncut depth).append
      (.append (.single (by rw [kind]; rfl) (by simp [kind])) (right.uncut depth))
  | .call calls opens closes args, depth =>
    .append (.single (by rw [calls]; rfl) (by simp [calls]))
      (.group opens closes (args.uncut depth))
  | .group opens closes phrase, depth => .group opens closes (phrase.uncut (depth + 1))
theorem SpellsAll.uncut {ts : List Token} {es : List ParsedExpr} :
    SpellsAll ts es → ∀ depth, Uncut (depth + 1) ts
  | .none, depth => .nil
  | .one phrase, depth => phrase.uncut (depth + 1)
  | .more kind phrase others, depth =>
    (phrase.uncut (depth + 1)).append
      (.append (.single (by rw [kind]; rfl) (by simp)) (others.uncut depth))
end

theorem SpellsItem.uncut {clause : Clause} {ts : List Token} {e : ParsedExpr}
    (spelled : SpellsItem clause ts e) : Uncut 0 ts := by
  cases spelled with
  | condition phrase | ordered phrase => exact phrase.uncut 0
  | named phrase joins names =>
    exact (phrase.uncut 0).append
      (.append (.single (by rw [joins]; rfl) (by simp [joins]))
        (.single (by rw [names]; rfl) (by simp [names])))
  | directed phrase word _ =>
    exact (phrase.uncut 0).append (.single (by rw [word]; rfl) (by simp [word]))

theorem SpellsItems.cut {clause : Clause} {ts : List Token} {es : List ParsedExpr}
    (spelled : SpellsItems clause ts es) : List.Forall₂ (SpellsItem clause) (Token.cut 0 ts) es := by
  induction spelled with
  | @one ts e item =>
    have whole := item.uncut []
    rw [List.append_nil] at whole
    rw [whole]
    simpa [Token.cut] using item
  | @more t ts us e es kind item _ ih =>
    rw [item.uncut, Token.cut, if_pos ⟨kind, rfl⟩]
    simpa using ⟨item, ih⟩

theorem clause_items {source : String} {clause : Clause} {ts : List Token} {es : List ParsedExpr}
    (lexed : tokenize source = .ok ts) (parsed : Parser.clause clause ts = .ok es) :
    List.Forall₂ (SpellsItem clause) (items ts) es := by
  obtain ⟨body, last, rfl, -, spelled⟩ := clause_spelling lexed parsed
  rw [items, List.dropLast_concat]
  exact spelled.cut

end Grammar

theorem Compiler.computeModel_parsed {source : String} {entity : Entity} {p : Pool}
    (reachable : p.Reachable) {made : List ComputeItem}
    (done : (computeModel source entity p).1 = .ok made) :
    ∃ ts es, tokenize source = .ok ts ∧ Parser.compute ts = .ok es ∧
      List.Forall₂ (SpellsItem .compute) (items ts) es ∧
      (ts.length ≤ handles → List.Forall₂
        (fun e item => ComputeItem.Models entity (e.read (covered source.toList)) item) es made) := by
  obtain ⟨ts, read, lexed, seen, typed⟩ := computeModel_items done
  obtain ⟨es, parsed, -⟩ := Pool.items?_fragments reachable source seen
  refine ⟨ts, es, lexed, parsed, clause_items lexed parsed, fun few => ?_⟩
  obtain ⟨made, rfl, models⟩ := compute_models typed
  rwa [Pool.items?_parsed reachable source lexed few parsed seen, Expr.readAll_eq_map,
    List.forall₂_map_left_iff] at models

end ClauseSql
