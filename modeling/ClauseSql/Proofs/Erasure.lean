import ClauseSql.Proofs.Outcome
import ClauseSql.Sql.Generation

/-! SQL without what a user wrote. Erasing the values of the placeholders and the patterns changes
nothing but the arguments of the text, and the erased expression comes from a model whose literals
have been blanked. -/
namespace ClauseSql

namespace Sql

mutual
/-- The expression with every argument replaced by the empty text. -/
def erase : Sql → Sql
  | .column text => .column text
  | .param _ => .param (.text "")
  | .template text args => .template text (eraseAll args)
  | .binary op left right parenthesized => .binary op left.erase right.erase parenthesized
  | .group inner => .group inner.erase
  | .not inner => .not inner.erase
  | .isNull inner negated => .isNull inner.erase negated
  | .like target _ escape => .like target.erase "" escape
  | .constant value => .constant value
  | .named inner name opening closing => .named inner.erase name opening closing
  | .ordered inner descending => .ordered inner.erase descending
def eraseAll : List Sql → List Sql
  | [] => []
  | e :: es => e.erase :: eraseAll es
end

end Sql

def Piece.blank : Piece → Piece
  | .text s => .text s
  | .param _ => .param (.text "")

namespace Printed

def blank (p : Printed) : Printed := ⟨p.pieces.map Piece.blank, p.complete⟩

@[simp] theorem blank_ofText (s : String) : (ofText s).blank = ofText s := rfl

@[simp] theorem blank_ofParam (value : Value) : (ofParam value).blank = ofParam (.text "") := rfl

theorem append_eq (a b : Printed) :
    a ++ b = if a.complete then ⟨a.pieces ++ b.pieces, b.complete⟩ else a := rfl

@[simp] theorem blank_append (a b : Printed) : (a ++ b).blank = a.blank ++ b.blank := by
  simp only [append_eq, blank]
  split <;> simp

@[simp] theorem text_blank (p : Printed) : p.blank.text = p.text := by
  unfold text piecesText blank
  rw [List.map_map]
  congr 1
  apply List.map_congr_left
  intro piece _
  cases piece <;> rfl

end Printed

theorem Template.fill_blank (args : List Printed) (segments : List Segment) :
    fill (args.map Printed.blank) segments = (fill args segments).blank := by
  induction segments with
  | nil => rfl
  | cons segment rest ih =>
    cases segment with
    | text c => simp only [fill, ih, Printed.blank_append, Printed.blank_ofText]
    | slot digits =>
      cases index : index? digits with
      | none => simp only [fill, index, Option.bind_none]; rfl
      | some i =>
        cases arg : args[i]? with
        | none => simp only [fill, index, Option.bind_some, List.getElem?_map, arg]; rfl
        | some a =>
          simp only [fill, index, Option.bind_some, List.getElem?_map, arg, Option.map_some, ih,
            Printed.blank_append]

namespace Sql

open Printed

mutual
theorem print_erase (e : Sql) : e.erase.print = e.print.blank := by
  match e with
  | .column _ => rfl
  | .param _ => rfl
  | .template text args => simp only [erase, print, printAll_eraseAll args, Template.fill_blank]
  | .binary op left right parenthesized =>
    cases parenthesized <;> simp [erase, print, print_erase left, print_erase right]
  | .group inner => simp [erase, print, print_erase inner]
  | .not inner => simp [erase, print, print_erase inner]
  | .isNull inner negated => simp [erase, print, print_erase inner]
  | .like target pattern escape =>
    simp only [erase, print, print_erase target, blank_append, blank_ofText, blank_ofParam]
  | .constant _ => rfl
  | .named inner name opening closing => simp [erase, print, print_erase inner]
  | .ordered inner descending => simp [erase, print, print_erase inner]
theorem printAll_eraseAll (es : List Sql) : printAll (eraseAll es) = (printAll es).map blank := by
  match es with
  | [] => rfl
  | e :: es => simp only [eraseAll, printAll, print_erase e, printAll_eraseAll es, List.map_cons]
end

theorem text_of_erase_eq {a b : Sql} (same : a.erase = b.erase) : a.print.text = b.print.text := by
  rw [← text_blank a.print, ← text_blank b.print, ← print_erase, ← print_erase, same]

end Sql

/-- Null is no user's choice of value, so it is kept apart from all other values. -/
def Value.blank : Value → Value
  | .null => .null
  | _ => .text ""

namespace Operand

mutual
def blank : Operand → Operand
  | .property path => .property path
  | .literal value => .literal value.blank
  | .call function args => .call function (blankAll args)
  | .arithmetic op left right => .arithmetic op left.blank right.blank
def blankAll : List Operand → List Operand
  | [] => []
  | operand :: operands => operand.blank :: blankAll operands
end

@[simp] theorem isNull_blank (o : Operand) : o.blank.isNull = o.isNull := by
  match o with
  | .literal value => cases value <;> rfl
  | .property _ => rfl
  | .call _ _ => rfl
  | .arithmetic _ _ _ => rfl

theorem length_blankAll (operands : List Operand) : (blankAll operands).length = operands.length := by
  induction operands with
  | nil => rfl
  | cons operand operands ih => simp only [blankAll, List.length_cons, ih]

end Operand

def Filter.blank : Filter → Filter
  | .comparison operator left right => .comparison operator left.blank right.blank
  | .stringMatch operator target _ => .stringMatch operator target.blank ""
  | .logical operator left right => .logical operator left.blank right.blank
  | .not operand => .not operand.blank
  | .constant value => .constant value

def ComputeItem.blank (item : ComputeItem) : ComputeItem :=
  { item with operand := item.operand.blank }

def OrderItem.blank (item : OrderItem) : OrderItem := { item with operand := item.operand.blank }

namespace Generation

open Outcome

variable (dialect : Dialect) (entity : Entity)

mutual
theorem operand_blank (o : Operand) :
    (operand dialect entity o.blank).map Sql.erase = (operand dialect entity o).map Sql.erase := by
  match o with
  | .property _ => rfl
  | .literal _ => rfl
  | .call function args =>
    simp only [Operand.blank, operand, Operand.length_blankAll]
    refine map_bind_same fun template => ?_
    refine map_bind_congr (operands_blank args) fun as bs same => ?_
    simp only [map_pure, Sql.erase, same]
  | .arithmetic op left right =>
    simp only [Operand.blank, operand]
    refine map_bind_congr (operand_blank left) fun a b same => ?_
    refine map_bind_congr (operand_blank right) fun c d other => ?_
    simp only [map_pure, Sql.erase, same, other]
theorem operands_blank (os : List Operand) :
    (operands dialect entity (Operand.blankAll os)).map Sql.eraseAll =
      (operands dialect entity os).map Sql.eraseAll := by
  match os with
  | [] => rfl
  | o :: os =>
    simp only [Operand.blankAll, operands]
    refine map_bind_congr (operand_blank o) fun a b same => ?_
    refine map_bind_congr (operands_blank os) fun as bs others => ?_
    simp only [map_pure, Sql.eraseAll, same, others]
end

theorem comparison_blank (operator : Operator) (left right : Operand) :
    (comparison dialect entity operator left.blank right.blank).map Sql.erase =
      (comparison dialect entity operator left right).map Sql.erase := by
  have tested : ∀ o : Operand,
      (comparison.nullTest dialect entity operator o.blank).map Sql.erase =
        (comparison.nullTest dialect entity operator o).map Sql.erase := by
    intro o
    unfold comparison.nullTest
    refine map_bind_same fun negated => ?_
    refine map_bind_congr (operand_blank dialect entity o) fun a b same => ?_
    simp only [map_pure, Sql.erase, same]
  unfold comparison
  simp only [Operand.isNull_blank]
  split
  · rfl
  · exact tested left
  · exact tested right
  · refine map_bind_same fun op => ?_
    refine map_bind_congr (operand_blank dialect entity left) fun a b same => ?_
    refine map_bind_congr (operand_blank dialect entity right) fun c d other => ?_
    simp only [map_pure, Sql.erase, same, other]

theorem filter_blank (f : Filter) :
    (filter dialect entity f.blank).map Sql.erase = (filter dialect entity f).map Sql.erase := by
  induction f with
  | comparison operator left right => exact comparison_blank dialect entity operator left right
  | stringMatch operator target text =>
    -- Whether there is a pattern is up to the operator alone.
    have patterns : (orElse (.notStringMatch operator) (Like.pattern? operator "")).map (fun _ => ()) =
        (orElse (.notStringMatch operator) (Like.pattern? operator text)).map fun _ => () := by
      cases operator <;> rfl
    refine map_bind_congr patterns fun pattern other _ => ?_
    refine map_bind_congr (operand_blank dialect entity target) fun a b same => ?_
    simp only [map_pure, Sql.erase, same]
  | logical operator left right ihl ihr =>
    refine map_bind_same fun op => ?_
    refine map_bind_congr ihl fun a b same => ?_
    refine map_bind_congr ihr fun c d other => ?_
    simp only [map_pure, Sql.erase, same, other]
  | not inner ih =>
    refine map_bind_congr ih fun a b same => ?_
    simp only [map_pure, Sql.erase, same]
  | constant value => rfl

theorem computed_blank (item : ComputeItem) :
    (computed dialect entity item.blank).map Sql.erase =
      (computed dialect entity item).map Sql.erase := by
  refine map_bind_congr (operand_blank dialect entity item.operand) fun a b same => ?_
  simp only [map_pure, Sql.erase, ComputeItem.blank, same]

theorem sorted_blank (item : OrderItem) :
    (sorted dialect entity item.blank).map Sql.erase = (sorted dialect entity item).map Sql.erase := by
  refine map_bind_congr (operand_blank dialect entity item.operand) fun a b same => ?_
  simp only [map_pure, Sql.erase, OrderItem.blank, same]

variable {dialect entity}

theorem erase_eq_of_map {a b : Sql} {x y : Except Error Sql} (left : x = .ok a) (right : y = .ok b)
    (same : x.map Sql.erase = y.map Sql.erase) : a.erase = b.erase := by
  rw [left, right] at same
  exact Except.ok.inj same

theorem filterSql_eq_ok {f : Filter} {out : FilterSql} :
    filterSql dialect entity f = .ok out ↔
      ∃ e, filter dialect entity f = .ok e ∧ e.print.complete = true ∧
        ⟨e.print.text, e.print.args⟩ = out := by
  simp only [filterSql, Writer.render, Writer.write, bind_eq_ok]
  constructor
  · rintro ⟨e, generated, _, written, equal⟩
    split at written
    · next complete => exact ⟨e, generated, complete, by simpa using equal⟩
    · cases written
  · rintro ⟨e, generated, complete, rfl⟩
    exact ⟨e, generated, (), by rw [if_pos complete], by simp⟩

theorem filterSql_text_eq {f g : Filter} (same : f.blank = g.blank) {out other : FilterSql}
    (left : filterSql dialect entity f = .ok out) (right : filterSql dialect entity g = .ok other) :
    out.sql = other.sql := by
  obtain ⟨a, generated, _, rfl⟩ := filterSql_eq_ok.1 left
  obtain ⟨b, generated', _, rfl⟩ := filterSql_eq_ok.1 right
  refine Sql.text_of_erase_eq (erase_eq_of_map generated generated' ?_)
  rw [← filter_blank, same, filter_blank]

theorem columns_cons {w : Writer} {e : Except Error Sql} {es : List (Except Error Sql)}
    {texts : List String} {args : List Value} :
    columns w (e :: es) = .ok (texts, args) ↔
      ∃ a, e = .ok a ∧ a.print.complete = true ∧
        ∃ others, columns { w with args := w.args ++ a.print.args } es = .ok (others, args) ∧
          a.print.text :: others = texts := by
  simp only [columns, Writer.column, bind_eq_ok]
  constructor
  · rintro ⟨a, made, text, written, ⟨others, values⟩, rest, equal⟩
    cases equal
    split at written
    · next complete =>
      cases written
      rw [if_pos complete] at rest
      exact ⟨a, made, complete, others, rest, rfl⟩
    · cases written
  · rintro ⟨a, made, complete, others, rest, rfl⟩
    exact ⟨a, made, a.print.text, by rw [if_pos complete], (others, args),
      by rw [if_pos complete]; exact rest, rfl⟩

theorem columns_texts_eq {es fs : List (Except Error Sql)}
    (same : es.map (Except.map Sql.erase) = fs.map (Except.map Sql.erase)) {w v : Writer}
    {texts others : List String} {args values : List Value}
    (left : columns w es = .ok (texts, args)) (right : columns v fs = .ok (others, values)) :
    texts = others := by
  induction es generalizing fs w v texts others with
  | nil =>
    obtain rfl : fs = [] := List.map_eq_nil_iff.1 same.symm
    cases left
    cases right
    rfl
  | cons e es ih =>
    cases fs with
    | nil => cases same
    | cons f fs =>
      rw [List.map_cons, List.map_cons, List.cons.injEq] at same
      obtain ⟨a, made, _, more, rest, rfl⟩ := columns_cons.1 left
      obtain ⟨b, made', _, more', rest', rfl⟩ := columns_cons.1 right
      rw [Sql.text_of_erase_eq (erase_eq_of_map made made' same.1), ih same.2 rest rest']

theorem map_erase_eq {ι : Type} {blank : ι → ι} {make : ι → Except Error Sql}
    (ignores : ∀ item, (make (blank item)).map Sql.erase = (make item).map Sql.erase)
    {items others : List ι} (same : items.map blank = others.map blank) :
    (items.map make).map (Except.map Sql.erase) = (others.map make).map (Except.map Sql.erase) := by
  have through : ∀ items : List ι, (items.map make).map (Except.map Sql.erase) =
      (items.map blank).map fun item => (make item).map Sql.erase := by
    intro items
    rw [List.map_map, List.map_map]
    exact List.map_congr_left fun item _ => (ignores item).symm
  rw [through, through, same]

theorem computeSql_columns_eq {items others : List ComputeItem}
    (same : items.map ComputeItem.blank = others.map ComputeItem.blank) {out other : ComputeSql}
    (left : computeSql dialect entity items = .ok out)
    (right : computeSql dialect entity others = .ok other) : out.columns = other.columns := by
  obtain ⟨⟨texts, args⟩, written, equal⟩ := bind_eq_ok.1 left
  obtain ⟨⟨texts', args'⟩, written', equal'⟩ := bind_eq_ok.1 right
  have texts_eq := columns_texts_eq (map_erase_eq (computed_blank dialect entity) same) written written'
  have named : ∀ items : List ComputeItem, List.zipWith (fun text item => ⟨text, item.name⟩) texts items =
      List.zipWith (fun text item => (⟨text, item.name⟩ : ComputedColumn)) texts
        (items.map ComputeItem.blank) := by
    intro items
    rw [List.zipWith_map_right]
    rfl
  cases equal
  cases equal'
  dsimp only
  rw [← texts_eq, named items, named others, same]

theorem orderBySql_items_eq {items others : List OrderItem}
    (same : items.map OrderItem.blank = others.map OrderItem.blank) {out other : OrderBySql}
    (left : orderBySql dialect entity items = .ok out)
    (right : orderBySql dialect entity others = .ok other) : out.items = other.items := by
  obtain ⟨⟨texts, args⟩, written, equal⟩ := bind_eq_ok.1 left
  obtain ⟨⟨texts', args'⟩, written', equal'⟩ := bind_eq_ok.1 right
  cases equal
  cases equal'
  exact columns_texts_eq (map_erase_eq (sorted_blank dialect entity) same) written written'

end Generation

end ClauseSql
