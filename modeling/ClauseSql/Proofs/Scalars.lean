import ClauseSql.Proofs.Erasure
import ClauseSql.Proofs.SqlForms

/-! SQL values: columns, placeholders, calls and arithmetic. What such a value prints is put together
from the segments of its form and from what its arguments print. -/
namespace ClauseSql

open Template

namespace Printed

/-- All of it could be written, with these characters and these arguments. -/
structure Writes (p : Printed) (cs : List Char) (values : List Value) : Prop where
  complete : p.complete = true
  chars : p.text.toList = cs
  args : p.args = values

theorem writes_empty : empty.Writes [] [] := ⟨rfl, rfl, rfl⟩

theorem writes_text (s : String) : (ofText s).Writes s.toList [] :=
  ⟨rfl, by simp [text, piecesText, ofText], rfl⟩

theorem writes_param (value : Value) : (ofParam value).Writes ['?'] [value] :=
  ⟨rfl, by simp [text, piecesText, ofParam], rfl⟩

theorem Writes.append {a b : Printed} {cs ds : List Char} {values others : List Value}
    (first : a.Writes cs values) (second : b.Writes ds others) :
    (a ++ b).Writes (cs ++ ds) (values ++ others) := by
  obtain ⟨complete, rfl, rfl⟩ := first
  obtain ⟨complete', rfl, rfl⟩ := second
  rw [append_eq, if_pos complete]
  exact ⟨complete', by simp [text, piecesText], by simp [Printed.args]⟩

end Printed

namespace Sql

def chars (e : Sql) : List Char := e.print.text.toList

def args (e : Sql) : List Value := e.print.args

@[simp] theorem chars_column (text : String) : (column text).chars = text.toList :=
  (Printed.writes_text text).chars

@[simp] theorem chars_param (value : Value) : (param value).chars = ['?'] :=
  (Printed.writes_param value).chars

@[simp] theorem args_param (value : Value) : (param value).args = [value] := rfl

theorem writes_of_complete {e : Sql} (complete : e.print.complete = true) :
    e.print.Writes e.chars e.args := ⟨complete, rfl, rfl⟩

theorem printAll_eq (es : List Sql) : printAll es = es.map print := by
  induction es with
  | nil => rfl
  | cons e es ih => rw [printAll, ih, List.map_cons]

theorem eraseAll_eq (es : List Sql) : eraseAll es = es.map erase := by
  induction es with
  | nil => rfl
  | cons e es ih => rw [eraseAll, ih, List.map_cons]

end Sql

def isColumnText : List Char → Bool
  | [] => false
  | c :: cs => Text.isNameStart c && cs.all isColumnChar

theorem all_of_isColumnText {cs : List Char} (column : isColumnText cs = true) :
    ∀ c ∈ cs, isColumnChar c = true := by
  cases cs with
  | nil => simp
  | cons c cs =>
    simp only [isColumnText, Bool.and_eq_true, List.all_eq_true] at column
    intro x member
    rcases List.mem_cons.1 member with rfl | member
    · have start := column.1
      simp only [Text.isNameStart, Bool.or_eq_true] at start
      simp only [isColumnChar, Text.isNameChar, Char.isAlphanum, Bool.or_eq_true]
      rcases start with letter | underscore
      · exact .inl (.inl (.inl letter))
      · exact .inl (.inr underscore)
    · exact column.2 x member

theorem SqlOperator.ofArithmetic_injective : Function.Injective SqlOperator.ofArithmetic := by
  intro a b same
  cases a <;> cases b <;> simp_all [SqlOperator.ofArithmetic]

inductive Applied : Form → List Sql → Sql → Prop
  | call {text : String} {args : List Sql} :
      Applied (.call text args.length) args (.template text args)
  | arithmetic {op : Arithmetic} {left right : Sql} :
      Applied (.arithmetic op) [left, right] (.binary (.ofArithmetic op) left right true)

namespace Applied

variable {f g : Form} {as bs : List Sql} {a b : Sql}

theorem length (applied : Applied f as a) : as.length = f.arity := by
  cases applied <;> rfl

theorem erase_eq (first : Applied f as a) (second : Applied f bs b)
    (same : as.map Sql.erase = bs.map Sql.erase) : a.erase = b.erase := by
  cases first with
  | call =>
    generalize arity : as.length = n at second
    cases second
    simp only [Sql.erase, Sql.eraseAll_eq, same]
  | arithmetic =>
    cases second
    simp only [List.map_cons, List.map_nil, List.cons.injEq] at same
    simp only [Sql.erase, same.1, same.2.1]

theorem of_erase_eq (first : Applied f as a) (second : Applied g bs b)
    (same : a.erase = b.erase) : f = g ∧ as.map Sql.erase = bs.map Sql.erase := by
  cases first with
  | call =>
    cases second with
    | call =>
      simp only [Sql.erase, Sql.eraseAll_eq, Sql.template.injEq] at same
      have length := congrArg List.length same.2
      simp only [List.length_map] at length
      exact ⟨by rw [same.1, length], same.2⟩
    | arithmetic => simp [Sql.erase] at same
  | arithmetic =>
    cases second with
    | call => simp [Sql.erase] at same
    | arithmetic =>
      simp only [Sql.erase, Sql.binary.injEq] at same
      exact ⟨by rw [SqlOperator.ofArithmetic_injective same.1], by simp [same.2.1, same.2.2.1]⟩

theorem unique (first : Applied f as a) (second : Applied f as b) : a = b := by
  cases first with
  | call =>
    generalize arity : as.length = n at second
    cases second
    rfl
  | arithmetic => cases second; rfl

end Applied

inductive Scalar (d : Dialect) : Sql → Prop
  | column {text : String} : isColumnText text.toList = true → Scalar d (.column text)
  | param {value : Value} : Scalar d (.param value)
  | form {f : Form} {args : List Sql} {e : Sql} : f ∈ d.forms → Applied f args e →
      (∀ arg ∈ args, Scalar d arg) → Scalar d e

/-- The text of some segments with the given values in their slots, from left to right. -/
inductive Spelled (d : Dialect) : List Segment → List Sql → List Char → Prop
  | nil : Spelled d [] [] []
  | text {c : Char} {p : List Segment} {vs : List Sql} {t : List Char} : Spelled d p vs t →
      Spelled d (.text c :: p) vs (c :: t)
  | slot {digits : List Char} {p : List Segment} {v : Sql} {vs : List Sql} {t : List Char} :
      Scalar d v → Spelled d p vs t → Spelled d (.slot digits :: p) (v :: vs) (v.chars ++ t)

namespace Spelled

variable {d : Dialect} {p q : List Segment} {vs ws : List Sql} {t u : List Char}

theorem texts (cs : List Char) (spelled : Spelled d p vs t) :
    Spelled d (cs.map .text ++ p) vs (cs ++ t) := by
  induction cs with
  | nil => exact spelled
  | cons c cs ih => exact .text ih

theorem append (first : Spelled d p vs t) (second : Spelled d q ws u) :
    Spelled d (p ++ q) (vs ++ ws) (t ++ u) := by
  induction first with
  | nil => exact second
  | text _ ih => exact .text ih
  | slot scalar _ ih =>
    rw [List.append_assoc]
    exact .slot scalar ih

theorem starts {test : Char → Bool} (spelled : Spelled d p vs t)
    (start : startsWith test p = true) : ∃ c rest, t = c :: rest ∧ test c = true := by
  cases spelled with
  | nil => cases start
  | text => exact ⟨_, _, rfl, start⟩
  | slot => cases start

theorem dropWhile (spelled : Spelled d p vs t) (room : spaced p = true)
    (start : startsWith (fun _ => true) p = true) :
    ∃ u, Spelled d (p.dropWhile isColumnSegment) vs u ∧ u.length ≤ t.length ∧
      ∀ r, (t ++ r).dropWhile isColumnChar = u ++ r := by
  induction spelled with
  | nil => cases start
  | slot => cases start
  | @text c p vs t spelled ih =>
    simp only [spaced, Bool.and_eq_true, Bool.or_eq_true] at room
    by_cases word : isColumnChar c = true
    · obtain ⟨u, rest, short, same⟩ := ih room.2 (room.1.resolve_left (by simp [word]))
      refine ⟨u, ?_, by simp only [List.length_cons]; omega, fun r => ?_⟩
      · rwa [List.dropWhile_cons_of_pos (by exact word)]
      · rw [List.cons_append, List.dropWhile_cons_of_pos word, same]
    · refine ⟨c :: t, ?_, Nat.le_refl _, fun r => ?_⟩
      · rw [List.dropWhile_cons_of_neg (by exact word)]
        exact .text spelled
      · rw [List.cons_append, List.dropWhile_cons_of_neg word]

end Spelled

theorem startsWith_append {test : Char → Bool} {p : List Segment} (q : List Segment)
    (start : startsWith test p = true) : startsWith test (p ++ q) = true := by
  match p with
  | .text _ :: _ => exact start

theorem spaced_append {p q : List Segment} (first : spaced p = true) (second : spaced q = true) :
    spaced (p ++ q) = true := by
  induction p with
  | nil => exact second
  | cons segment p ih =>
    cases segment with
    | text c =>
      simp only [spaced, Bool.and_eq_true, Bool.or_eq_true] at first
      simp only [List.cons_append, spaced, Bool.and_eq_true, Bool.or_eq_true]
      exact ⟨first.1.imp_right (startsWith_append q), ih first.2⟩
    | slot digits =>
      simp only [spaced, Bool.and_eq_true] at first
      simp only [List.cons_append, spaced, Bool.and_eq_true]
      exact ⟨startsWith_append q first.1, ih first.2⟩

theorem spaced_dropWhile {p : List Segment} (test : Segment → Bool) (room : spaced p = true) :
    spaced (p.dropWhile test) = true := by
  induction p with
  | nil => rfl
  | cons segment p ih =>
    rw [List.dropWhile_cons]
    split
    · refine ih ?_
      cases segment <;> exact (Bool.and_eq_true _ _ ▸ room).2
    · exact room

theorem mem_slots {p : List Segment} {i : Nat} :
    i ∈ slots p ↔ ∃ digits, .slot digits ∈ p ∧ index? digits = some i := by
  induction p with
  | nil => simp [slots]
  | cons segment p ih => cases segment <;> simp [slots, ih, or_and_right, exists_or]

def picks (args : List Sql) (p : List Segment) : List Sql :=
  (slots p).map fun i => args.getD i (.constant true)

section Filling

variable {d : Dialect} {f : Form} {args : List Sql}

theorem fill_writes {p : List Segment} (numbered : ∀ digits, .slot digits ∈ p →
      ∃ i, index? digits = some i ∧ i < args.length)
    (scalars : ∀ arg ∈ args, Scalar d arg) (complete : ∀ arg ∈ args, arg.print.complete = true) :
    ∃ t, Spelled d p (picks args p) t ∧
      (fill (Sql.printAll args) p).Writes t ((picks args p).flatMap Sql.args) := by
  induction p with
  | nil => exact ⟨[], .nil, Printed.writes_empty⟩
  | cons segment p ih =>
    obtain ⟨t, spelled, writes⟩ := ih fun digits member =>
      numbered digits (List.mem_cons_of_mem _ member)
    cases segment with
    | text c =>
      have written := (Printed.writes_text (String.singleton c)).append writes
      rw [String.toList_singleton] at written
      exact ⟨c :: t, .text spelled, written⟩
    | slot digits =>
      obtain ⟨i, index, bound⟩ := numbered digits List.mem_cons_self
      have member : args[i] ∈ args := List.getElem_mem bound
      have picked : picks args (.slot digits :: p) = args[i] :: picks args p := by
        simp [picks, slots, index, bound]
      rw [picked]
      refine ⟨(args[i]).chars ++ t, .slot (scalars _ member) spelled, ?_⟩
      have written := (Sql.writes_of_complete (complete _ member)).append writes
      simpa [fill, index, Sql.printAll_eq, bound] using written

theorem numbered_slots (member : f ∈ d.forms) {digits : List Char}
    (slot : .slot digits ∈ f.segments) : ∃ i, index? digits = some i ∧ i < f.arity := by
  have numbered := Dialect.forms_numbered member
  simp only [Form.numbered, Bool.and_eq_true, List.all_eq_true] at numbered
  simpa [Option.any_eq_true] using numbered.1 _ slot

theorem mem_slots_iff (member : f ∈ d.forms) {i : Nat} : i ∈ slots f.segments ↔ i < f.arity := by
  constructor
  · intro slot
    obtain ⟨digits, slot, index⟩ := mem_slots.1 slot
    obtain ⟨j, index', bound⟩ := numbered_slots member slot
    rw [index] at index'
    cases index'
    exact bound
  · intro bound
    have numbered := Dialect.forms_numbered member
    simp only [Form.numbered, Bool.and_eq_true, List.all_eq_true] at numbered
    simpa using numbered.2 i (List.mem_range.2 bound)

theorem map_eq_of_picks {α : Type} {g : Sql → α} {as bs : List Sql} (member : f ∈ d.forms)
    (first : as.length = f.arity) (second : bs.length = f.arity)
    (same : (picks as f.segments).map g = (picks bs f.segments).map g) : as.map g = bs.map g := by
  simp only [picks, List.map_map, List.map_inj_left, mem_slots_iff member] at same
  apply List.ext_getElem
  · simp [first, second]
  · intro i left right
    simp only [List.length_map] at left right
    simpa [left, right] using same i (first ▸ left)

theorem mem_of_mem_picks (member : f ∈ d.forms) (length : args.length = f.arity) {e : Sql}
    (picked : e ∈ picks args f.segments) : e ∈ args := by
  obtain ⟨i, slot, rfl⟩ := List.mem_map.1 picked
  have bound : i < args.length := length ▸ (mem_slots_iff member).1 slot
  simp [bound]

theorem Applied.writes {e : Sql} (applied : Applied f args e) (member : f ∈ d.forms)
    (scalars : ∀ arg ∈ args, Scalar d arg) (complete : ∀ arg ∈ args, arg.print.complete = true) :
    ∃ t, Spelled d f.segments (picks args f.segments) t ∧
      e.print.Writes t ((picks args f.segments).flatMap Sql.args) := by
  cases applied with
  | call => exact fill_writes (fun digits => numbered_slots member) scalars complete
  | @arithmetic op left right =>
    have picked : picks [left, right] (Form.arithmetic op).segments = [left, right] := by
      cases op <;> rfl
    have first : left ∈ [left, right] := by simp
    have second : right ∈ [left, right] := by simp
    have written := (Printed.writes_text "(").append <|
      (Sql.writes_of_complete (complete left first)).append <|
      (Printed.writes_text (SqlOperator.ofArithmetic op).text).append <|
      (Sql.writes_of_complete (complete right second)).append (Printed.writes_text ")")
    rw [picked]
    refine ⟨_, ?_, by simpa [Sql.print] using written⟩
    exact .text (.slot (scalars left first) (.texts _ (.slot (scalars right second) (.text .nil))))

end Filling

namespace Scalar

variable {d : Dialect} {e : Sql}

theorem complete (scalar : Scalar d e) : e.print.complete = true := by
  induction scalar with
  | column => rfl
  | param => rfl
  | form member applied scalars ih =>
    obtain ⟨_, _, written⟩ := applied.writes member scalars ih
    exact written.complete

end Scalar

theorem Applied.spelled {d : Dialect} {f : Form} {args : List Sql} {e : Sql}
    (applied : Applied f args e) (member : f ∈ d.forms) (scalars : ∀ arg ∈ args, Scalar d arg) :
    Spelled d f.segments (picks args f.segments) e.chars ∧
      e.args = (picks args f.segments).flatMap Sql.args := by
  obtain ⟨t, spelled, written⟩ := applied.writes member scalars fun arg inside =>
    (scalars arg inside).complete
  obtain ⟨-, rfl, same⟩ := written
  exact ⟨spelled, same⟩

end ClauseSql
