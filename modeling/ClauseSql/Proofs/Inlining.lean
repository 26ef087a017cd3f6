import ClauseSql.Proofs.Erasure

/-! Placeholders and their arguments. An SQL expression can also be printed with its arguments in
their own places. The same text comes out if the expression is printed with placeholders and the
arguments are put in afterwards, one after the other, as long as nothing else looks like a
placeholder. -/
namespace ClauseSql

open Template

/-- The text with its question marks replaced by the arguments, the first by the first. -/
def bindMarks (write : Value → List Char) : List Char → List Value → List Char
  | [], _ => []
  | c :: cs, [] => c :: bindMarks write cs []
  | c :: cs, value :: values =>
    if c = '?' then write value ++ bindMarks write cs values
    else c :: bindMarks write cs (value :: values)

def isMark (c : Char) : Bool := c == '?'

theorem bindMarks_unmarked (write : Value → List Char) {cs : List Char}
    (unmarked : cs.any isMark = false) (rest : List Char) (values : List Value) :
    bindMarks write (cs ++ rest) values = cs ++ bindMarks write rest values := by
  induction cs with
  | nil => rfl
  | cons c cs ih =>
    simp only [List.any_cons, Bool.or_eq_false_iff] at unmarked
    have other : c ≠ '?' := by rintro rfl; cases unmarked.1
    cases values with
    | nil => simp only [List.cons_append, bindMarks, ih unmarked.2]
    | cons value values => simp only [List.cons_append, bindMarks, if_neg other, ih unmarked.2]

theorem count_unmarked {cs : List Char} (unmarked : cs.any isMark = false) : cs.count '?' = 0 := by
  rw [List.count_eq_zero]
  intro member
  rw [List.any_eq_false] at unmarked
  exact unmarked '?' member rfl

namespace Piece

def chars : Piece → List Char
  | text s => s.toList
  | param _ => ['?']

def inlined (write : Value → List Char) : Piece → List Char
  | text s => s.toList
  | param value => write value

def unmarked : Piece → Bool
  | text s => !s.toList.any isMark
  | param _ => true

end Piece

namespace Printed

theorem toList_piecesText (pieces : List Piece) :
    (piecesText pieces).toList = pieces.flatMap Piece.chars := by
  induction pieces with
  | nil => simp [piecesText]
  | cons piece pieces ih =>
    cases piece <;> simpa [piecesText, Piece.chars] using ih

def inlined? (write : Value → List Char) (p : Printed) : Option (List Char) :=
  if p.complete then some (p.pieces.flatMap (Piece.inlined write)) else none

def unmarked (p : Printed) : Bool := p.pieces.all Piece.unmarked

theorem inlined?_append (write : Value → List Char) (a b : Printed) :
    (a ++ b).inlined? write =
      (a.inlined? write).bind fun s => (b.inlined? write).map fun t => s ++ t := by
  rw [append_eq]
  cases first : a.complete with
  | false => simp [inlined?, first]
  | true => cases second : b.complete <;> simp [inlined?, first, second]

@[simp] theorem inlined?_ofText (write : Value → List Char) (s : String) :
    (ofText s).inlined? write = some s.toList := by
  simp [inlined?, ofText, Piece.inlined]

@[simp] theorem inlined?_ofParam (write : Value → List Char) (value : Value) :
    (ofParam value).inlined? write = some (write value) := by
  simp [inlined?, ofParam, Piece.inlined]

theorem unmarked_append {a b : Printed} (first : a.unmarked = true) (second : b.unmarked = true) :
    (a ++ b).unmarked = true := by
  rw [append_eq]
  split
  · simp only [unmarked, List.all_append, Bool.and_eq_true]
    exact ⟨first, second⟩
  · exact first

theorem bindMarks_pieces (write : Value → List Char) {pieces : List Piece}
    (unmarked : pieces.all Piece.unmarked = true) :
    bindMarks write (pieces.flatMap Piece.chars) (piecesArgs pieces) =
      pieces.flatMap (Piece.inlined write) := by
  induction pieces with
  | nil => rfl
  | cons piece pieces ih =>
    rw [List.all_cons, Bool.and_eq_true] at unmarked
    have rest := ih unmarked.2
    cases piece with
    | text s =>
      have plain : s.toList.any isMark = false := by
        simpa only [Piece.unmarked, Bool.not_eq_true'] using unmarked.1
      have args : piecesArgs (.text s :: pieces) = piecesArgs pieces := rfl
      rw [List.flatMap_cons, List.flatMap_cons, args, Piece.chars, Piece.inlined,
        bindMarks_unmarked write plain, rest]
    | param value =>
      have args : piecesArgs (.param value :: pieces) = value :: piecesArgs pieces := rfl
      rw [List.flatMap_cons, List.flatMap_cons, args, Piece.chars, Piece.inlined,
        List.singleton_append, bindMarks, if_pos rfl, rest]

theorem count_pieces {pieces : List Piece} (unmarked : pieces.all Piece.unmarked = true) :
    (pieces.flatMap Piece.chars).count '?' = (piecesArgs pieces).length := by
  induction pieces with
  | nil => rfl
  | cons piece pieces ih =>
    rw [List.all_cons, Bool.and_eq_true] at unmarked
    rw [List.flatMap_cons, List.count_append, ih unmarked.2]
    cases piece with
    | text s =>
      have plain : s.toList.any isMark = false := by
        simpa only [Piece.unmarked, Bool.not_eq_true'] using unmarked.1
      rw [Piece.chars, count_unmarked plain, Nat.zero_add]
      rfl
    | param value =>
      rw [Piece.chars, List.count_singleton_self, Nat.add_comm]
      rfl

end Printed

namespace Template

/-- The segments with their arguments in place. An argument that cannot be printed matters only if
a slot asks for it. -/
def inlined? (args : List (Option (List Char))) : List Segment → Option (List Char)
  | [] => some []
  | .text c :: rest => (inlined? args rest).map fun t => c :: t
  | .slot digits :: rest =>
    (index? digits).bind fun index => (args[index]?.join).bind fun s =>
      (inlined? args rest).map fun t => s ++ t

theorem inlined?_fill (write : Value → List Char) (args : List Printed) (segments : List Segment) :
    (fill args segments).inlined? write =
      inlined? (args.map (Printed.inlined? write)) segments := by
  induction segments with
  | nil => rfl
  | cons segment rest ih =>
    cases segment with
    | text c => simp [fill, inlined?, Printed.inlined?_append, ih]
    | slot digits =>
      cases index : index? digits with
      | none =>
        simp only [fill, inlined?, index, Option.bind_none]
        rfl
      | some i =>
        cases arg : args[i]? with
        | none =>
          simp only [fill, inlined?, index, Option.bind_some, List.getElem?_map, arg, Option.map_none,
            Option.join_none, Option.bind_none]
          rfl
        | some a => simp [fill, inlined?, index, arg, Printed.inlined?_append, ih]

theorem mem_of_text_mem {c : Char} {cs : List Char} (member : .text c ∈ segments cs) : c ∈ cs := by
  fun_induction segments cs with
  | case1 => cases member
  | case2 d rest digits slot ih =>
    have inside := ih (by simpa using member)
    exact List.mem_cons_of_mem d (List.mem_of_mem_drop inside)
  | case3 d rest plain ih =>
    rcases List.mem_cons.1 member with here | later
    · rw [Segment.text.inj here]
      exact List.mem_cons_self
    · exact List.mem_cons_of_mem d (ih later)

theorem unmarked_fill {args : List Printed} (each : ∀ arg ∈ args, arg.unmarked = true)
    {segments : List Segment} (plain : ∀ c, .text c ∈ segments → isMark c = false) :
    (fill args segments).unmarked = true := by
  induction segments with
  | nil => rfl
  | cons segment rest ih =>
    have later := ih fun c member => plain c (List.mem_cons_of_mem segment member)
    cases segment with
    | text c =>
      refine Printed.unmarked_append ?_ later
      simp [Printed.unmarked, Printed.ofText, Piece.unmarked, plain c List.mem_cons_self]
    | slot digits =>
      rw [fill]
      split
      · next arg found =>
        obtain ⟨i, -, here⟩ := Option.bind_eq_some_iff.1 found
        exact Printed.unmarked_append (each arg (List.mem_of_getElem? here)) later
      · rfl

end Template

namespace Sql

mutual
/-- The expression printed with its arguments in their own places, unless a template asks for an
argument that is not there. -/
def inlined? (write : Value → List Char) : Sql → Option (List Char)
  | .column text => some text.toList
  | .param value => some (write value)
  | .template text args => Template.inlined? (inlinedAll write args) (segments text.toList)
  | .binary op left right parenthesized => do
    let left ← left.inlined? write
    let right ← right.inlined? write
    return if parenthesized then '(' :: (left ++ (op.text.toList ++ (right ++ [')'])))
      else left ++ (op.text.toList ++ right)
  | .group inner => do
    let inner ← inner.inlined? write
    return '(' :: (inner ++ [')'])
  | .not inner => do
    let inner ← inner.inlined? write
    return "NOT (".toList ++ (inner ++ [')'])
  | .isNull inner negated => do
    let inner ← inner.inlined? write
    return inner ++ (if negated then " IS NOT NULL" else " IS NULL").toList
  | .like target pattern escape => do
    let target ← target.inlined? write
    return target ++ (" LIKE ".toList ++ (write (.text pattern) ++ ' ' :: escape.toList))
  | .constant value => some (if value then "1 = 1" else "1 = 0").toList
  | .named inner name opening closing => do
    let inner ← inner.inlined? write
    return inner ++ (" AS ".toList ++ (opening.toList ++ (name.toList ++ closing.toList)))
  | .ordered inner descending => do
    let inner ← inner.inlined? write
    return inner ++ (if descending then " DESC" else " ASC").toList
def inlinedAll (write : Value → List Char) : List Sql → List (Option (List Char))
  | [] => []
  | e :: es => e.inlined? write :: inlinedAll write es
end

mutual
theorem inlined?_print (write : Value → List Char) (e : Sql) :
    e.print.inlined? write = e.inlined? write := by
  match e with
  | .column text => simp [print, inlined?]
  | .param value => simp [print, inlined?]
  | .template text args =>
    rw [print, Template.inlined?_fill, inlined?, map_inlined?_printAll write args]
  | .binary op left right parenthesized =>
    have ih := inlined?_print write left
    have jh := inlined?_print write right
    cases parenthesized
    · simp only [print, inlined?, Bool.false_eq_true, if_false, Printed.inlined?_append, ih, jh]
      cases left.inlined? write <;> cases right.inlined? write <;> simp
    · simp only [print, inlined?, if_true, Printed.inlined?_append, ih, jh]
      cases left.inlined? write <;> cases right.inlined? write <;> simp
  | .group inner =>
    simp only [print, inlined?, Printed.inlined?_append, inlined?_print write inner]
    cases inner.inlined? write <;> simp
  | .not inner =>
    simp only [print, inlined?, Printed.inlined?_append, inlined?_print write inner]
    cases inner.inlined? write <;> simp
  | .isNull inner negated =>
    simp only [print, inlined?, Printed.inlined?_append, inlined?_print write inner]
    cases inner.inlined? write <;> simp
  | .like target pattern escape =>
    simp only [print, inlined?, Printed.inlined?_append, inlined?_print write target]
    cases target.inlined? write <;> simp
  | .constant value => simp [print, inlined?]
  | .named inner name opening closing =>
    simp only [print, inlined?, Printed.inlined?_append, inlined?_print write inner]
    cases inner.inlined? write <;> simp
  | .ordered inner descending =>
    simp only [print, inlined?, Printed.inlined?_append, inlined?_print write inner]
    cases inner.inlined? write <;> simp
theorem map_inlined?_printAll (write : Value → List Char) (es : List Sql) :
    (printAll es).map (Printed.inlined? write) = inlinedAll write es := by
  match es with
  | [] => rfl
  | e :: es =>
    rw [printAll, List.map_cons, inlinedAll, inlined?_print write e, map_inlined?_printAll write es]
end

mutual
def unmarked : Sql → Bool
  | .column text => !text.toList.any isMark
  | .param _ => true
  | .template text args => !text.toList.any isMark && unmarkedAll args
  | .binary _ left right _ => left.unmarked && right.unmarked
  | .group inner => inner.unmarked
  | .not inner => inner.unmarked
  | .isNull inner _ => inner.unmarked
  | .like target _ escape => target.unmarked && !escape.toList.any isMark
  | .constant _ => true
  | .named inner name opening closing =>
    inner.unmarked && !(opening.toList ++ (name.toList ++ closing.toList)).any isMark
  | .ordered inner _ => inner.unmarked
def unmarkedAll : List Sql → Bool
  | [] => true
  | e :: es => e.unmarked && unmarkedAll es
end

theorem unmarked_ofText {s : String} (plain : s.toList.any isMark = false) :
    (Printed.ofText s).unmarked = true := by
  simp [Printed.unmarked, Printed.ofText, Piece.unmarked, plain]

theorem unmarked_operator (op : SqlOperator) : (Printed.ofText op.text).unmarked = true := by
  cases op <;> decide

mutual
theorem unmarked_print {e : Sql} (plain : e.unmarked = true) : e.print.unmarked = true := by
  match e with
  | .column text => exact unmarked_ofText (by simpa [unmarked] using plain)
  | .param value => rfl
  | .template text args =>
    simp only [unmarked, Bool.and_eq_true, Bool.not_eq_true', List.any_eq_false] at plain
    refine Template.unmarked_fill (unmarked_printAll plain.2) fun c member => ?_
    exact Bool.eq_false_iff.2 (plain.1 c (Template.mem_of_text_mem member))
  | .binary op left right parenthesized =>
    simp only [unmarked, Bool.and_eq_true] at plain
    cases parenthesized
    · refine Printed.unmarked_append (unmarked_print plain.1) ?_
      exact Printed.unmarked_append (unmarked_operator op) (unmarked_print plain.2)
    · refine Printed.unmarked_append (unmarked_ofText (by decide)) ?_
      refine Printed.unmarked_append (unmarked_print plain.1) ?_
      refine Printed.unmarked_append (unmarked_operator op) ?_
      exact Printed.unmarked_append (unmarked_print plain.2) (unmarked_ofText (by decide))
  | .group inner =>
    refine Printed.unmarked_append (unmarked_ofText (by decide)) ?_
    exact Printed.unmarked_append (unmarked_print plain) (unmarked_ofText (by decide))
  | .not inner =>
    refine Printed.unmarked_append (unmarked_ofText (by decide)) ?_
    exact Printed.unmarked_append (unmarked_print plain) (unmarked_ofText (by decide))
  | .isNull inner negated =>
    exact Printed.unmarked_append (unmarked_print plain)
      (unmarked_ofText (by cases negated <;> decide))
  | .like target pattern escape =>
    simp only [unmarked, Bool.and_eq_true, Bool.not_eq_true'] at plain
    refine Printed.unmarked_append (unmarked_print plain.1) ?_
    refine Printed.unmarked_append (unmarked_ofText (by decide)) ?_
    refine Printed.unmarked_append rfl (unmarked_ofText ?_)
    simp [plain.2, isMark]
  | .constant value => exact unmarked_ofText (by cases value <;> decide)
  | .named inner name opening closing =>
    simp only [unmarked, Bool.and_eq_true, Bool.not_eq_true', List.any_append] at plain
    refine Printed.unmarked_append (unmarked_print plain.1) (unmarked_ofText ?_)
    simpa [isMark] using plain.2
  | .ordered inner descending =>
    exact Printed.unmarked_append (unmarked_print plain)
      (unmarked_ofText (by cases descending <;> decide))
theorem unmarked_printAll {es : List Sql} (plain : unmarkedAll es = true) :
    ∀ p ∈ printAll es, p.unmarked = true := by
  match es with
  | [] => exact List.forall_mem_nil _
  | e :: es =>
    simp only [unmarkedAll, Bool.and_eq_true] at plain
    exact List.forall_mem_cons.2 ⟨unmarked_print plain.1, unmarked_printAll plain.2⟩
end

theorem count_marks {e : Sql} (plain : e.unmarked = true) :
    e.print.text.toList.count '?' = e.print.args.length := by
  rw [Printed.text, Printed.toList_piecesText]
  exact Printed.count_pieces (unmarked_print plain)

/-- Printing with placeholders and binding them afterwards is printing with the arguments in place. -/
theorem inlined?_eq_bindMarks {e : Sql} (plain : e.unmarked = true)
    (complete : e.print.complete = true) (write : Value → List Char) :
    e.inlined? write = some (bindMarks write e.print.text.toList e.print.args) := by
  rw [← inlined?_print, Printed.inlined?, if_pos complete, Printed.text, Printed.toList_piecesText,
    Printed.args, Printed.bindMarks_pieces write (unmarked_print plain)]

end Sql

end ClauseSql
