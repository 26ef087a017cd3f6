import ClauseSql.Proofs.ScalarReading

/-! Brackets in SQL. They are balanced in every value, so a group can be cut out of a text, and a
value that begins with a bracket ends with the one that closes it. -/
namespace ClauseSql

open Template

/-- The brackets of the text match, at whatever depth the text stands. -/
def Balanced (cs : List Char) : Prop := ∀ depth, nest depth cs = some depth

theorem nest_cons (depth : Nat) (c : Char) (cs : List Char) :
    nest depth (c :: cs) = (bracket depth c).bind fun inner => nest inner cs :=
  List.foldlM_cons

theorem nest_append (depth : Nat) (cs ds : List Char) :
    nest depth (cs ++ ds) = (nest depth cs).bind fun inner => nest inner ds :=
  List.foldlM_append

theorem bracket_add {low high : Nat} {c : Char} (more : Nat) (nested : bracket low c = some high) :
    bracket (low + more) c = some (high + more) := by
  by_cases opening : c = '('
  · rw [bracket, if_pos opening] at nested ⊢
    cases nested
    rw [Nat.add_right_comm]
  · by_cases closing : c = ')'
    · rw [bracket, if_neg opening, if_pos closing] at nested ⊢
      by_cases ground : low = 0
      · rw [if_pos ground] at nested
        cases nested
      · rw [if_neg ground] at nested
        cases nested
        rw [if_neg (by omega), Nat.sub_add_comm (by omega)]
    · rw [bracket, if_neg opening, if_neg closing] at nested ⊢
      cases nested
      rfl

theorem nest_add {low high : Nat} {cs : List Char} (more : Nat) (nested : nest low cs = some high) :
    nest (low + more) cs = some (high + more) := by
  induction cs generalizing low with
  | nil =>
    cases nested
    rfl
  | cons c cs ih =>
    rw [nest_cons] at nested ⊢
    obtain ⟨inner, first, rest⟩ := Option.bind_eq_some_iff.1 nested
    rw [bracket_add more first, Option.bind_some]
    exact ih rest

theorem balanced_of_nest {cs : List Char} (nested : nest 0 cs = some 0) : Balanced cs := by
  intro depth
  simpa using nest_add depth nested

theorem balanced_of_all {cs : List Char} (all : ∀ c ∈ cs, c ≠ '(' ∧ c ≠ ')') : Balanced cs := by
  intro depth
  induction cs with
  | nil => rfl
  | cons c cs ih =>
    obtain ⟨opening, closing⟩ := all c List.mem_cons_self
    rw [nest_cons, bracket, if_neg opening, if_neg closing]
    exact ih fun c member => all c (List.mem_cons_of_mem _ member)

namespace Balanced

variable {cs ds x y u v : List Char}

theorem append (first : Balanced cs) (second : Balanced ds) : Balanced (cs ++ ds) := by
  intro depth
  rw [nest_append, first, Option.bind_some, second]

theorem group (inner : Balanced cs) : Balanced ('(' :: (cs ++ [')'])) := by
  intro depth
  rw [nest_cons, bracket, if_pos rfl, Option.bind_some, nest_append, inner (depth + 1)]
  rfl

theorem not_closed (inner : Balanced x) : ¬Balanced (x ++ ')' :: y) := by
  intro whole
  have nested := whole 0
  rw [nest_append, inner 0] at nested
  cases nested

theorem cancel (first : Balanced x) (second : Balanced y) (same : x ++ ')' :: u = y ++ ')' :: v) :
    x = y ∧ u = v := by
  obtain ⟨z, rfl, rest⟩ | ⟨z, rfl, rest⟩ := List.append_eq_append_iff.1 same
  · cases z with
    | nil => simpa using rest
    | cons c z =>
      cases rest
      exact absurd second first.not_closed
  · cases z with
    | nil => simpa using rest.symm
    | cons c z =>
      cases rest
      exact absurd first second.not_closed

end Balanced

theorem Spelled.nest {d : Dialect} {p : List Segment} {vs : List Sql} {t : List Char}
    (spelled : Spelled d p vs t) (balanced : ∀ v ∈ vs, Balanced v.chars) (depth : Nat) :
    nest depth t = nest depth (literals p) := by
  induction spelled generalizing depth with
  | nil => rfl
  | text _ ih => simp only [literals, nest_cons, ih balanced]
  | slot _ _ ih =>
    rw [nest_append, balanced _ List.mem_cons_self, Option.bind_some]
    exact ih (fun v member => balanced v (List.mem_cons_of_mem _ member)) depth

theorem Scalar.balanced {d : Dialect} {e : Sql} (scalar : Scalar d e) : Balanced e.chars := by
  induction scalar with
  | @column text column =>
    rw [Sql.chars_column]
    refine balanced_of_all fun c member => ?_
    have inside := all_of_isColumnText column c member
    constructor <;> (rintro rfl; revert inside; decide)
  | param =>
    rw [Sql.chars_param]
    exact balanced_of_nest rfl
  | form member applied scalars ih =>
    intro depth
    have spelled := (applied.spelled member scalars).1
    rw [spelled.nest (fun v inside => ih v (mem_of_mem_picks member applied.length inside))]
    exact balanced_of_nest (Dialect.forms_balanced member) depth

theorem Spelled.of_snoc {d : Dialect} {p : List Segment} {vs : List Sql} {t : List Char} {c : Char}
    (spelled : Spelled d (p ++ [.text c]) vs t) :
    ∃ inner, Spelled d p vs inner ∧ t = inner ++ [c] := by
  induction p generalizing vs t with
  | nil =>
    cases spelled with | text rest =>
    cases rest
    exact ⟨[], .nil, rfl⟩
  | cons segment p ih =>
    cases spelled with
    | text rest =>
      obtain ⟨inner, spelled, rfl⟩ := ih rest
      exact ⟨_, .text spelled, rfl⟩
    | slot scalar rest =>
      obtain ⟨inner, spelled, rfl⟩ := ih rest
      exact ⟨_, .slot scalar spelled, (List.append_assoc _ _ _).symm⟩

theorem Spelled.scalars {d : Dialect} {p : List Segment} {vs : List Sql} {t : List Char}
    (spelled : Spelled d p vs t) : ∀ v ∈ vs, Scalar d v := by
  induction spelled with
  | nil => simp
  | text _ ih => exact ih
  | slot scalar _ ih =>
    intro v member
    rcases List.mem_cons.1 member with rfl | member
    · exact scalar
    · exact ih v member

theorem Scalar.enclosed {d : Dialect} {e : Sql} {t : List Char} (scalar : Scalar d e)
    (opened : e.chars = '(' :: t) : ∃ inner, Balanced inner ∧ t = inner ++ [')'] := by
  cases scalar with
  | column column =>
    rw [Sql.chars_column] at opened
    rw [opened] at column
    cases column
  | param =>
    rw [Sql.chars_param] at opened
    cases opened
  | form member applied scalars =>
    have spelled := (applied.spelled member scalars).1
    have enclosed := Dialect.forms_enclosed member
    unfold Form.enclosed at enclosed
    split at enclosed
    · next c rest segments =>
      rw [segments, opened] at spelled
      cases spelled with | text spelled =>
      simp only [bne_self_eq_false, Bool.false_or, Bool.and_eq_true, beq_iff_eq] at enclosed
      obtain ⟨⟨p, rfl⟩, balanced⟩ := enclosed.imp_left List.getLast?_eq_some_iff.1
      rw [List.dropLast_concat] at balanced
      obtain ⟨inner, within, rfl⟩ := spelled.of_snoc
      refine ⟨inner, fun depth => ?_, rfl⟩
      rw [within.nest fun v inside => (within.scalars v inside).balanced]
      exact balanced_of_nest balanced depth
    · cases enclosed

end ClauseSql
