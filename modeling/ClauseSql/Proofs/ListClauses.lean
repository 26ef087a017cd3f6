import ClauseSql.Proofs.Erasure
import ClauseSql.Proofs.JoinedClauses
import ClauseSql.Proofs.TypingRules

/-! Clauses that are lists. Two compute or order clauses with a comma between them are a clause whose
items are those of the first and then those of the second, at every stage from the tokens to the SQL. Only
the names of computed columns look back, so they must not be used in both. -/
namespace ClauseSql

open Outcome Text

namespace Generation

theorem columns_eq_ok {w : Writer} {es : List (Except Error Sql)} {texts : List String}
    {args : List Value} :
    columns w es = .ok (texts, args) ↔
      ∃ made : List Sql, es = made.map .ok ∧ (∀ e ∈ made, e.print.complete = true) ∧
        texts = made.map (·.print.text) ∧ args = w.args ++ made.flatMap (·.print.args) := by
  induction es generalizing w texts with
  | nil =>
    constructor
    · intro written
      cases written
      exact ⟨[], rfl, by simp, rfl, by simp⟩
    · rintro ⟨made, none, -, rfl, rfl⟩
      rw [List.map_eq_nil_iff.1 none.symm]
      simp [columns]
  | cons e es ih =>
    rw [columns_cons]
    constructor
    · rintro ⟨a, rfl, complete, others, rest, rfl⟩
      obtain ⟨made, rfl, all, rfl, rfl⟩ := ih.1 rest
      exact ⟨a :: made, rfl, by simpa [complete] using all, rfl, by simp⟩
    · rintro ⟨made, same, all, rfl, rfl⟩
      obtain ⟨a, others, rfl, rfl, rfl⟩ := List.map_eq_cons_iff.1 same.symm
      rw [List.forall_mem_cons] at all
      exact ⟨a, rfl, all.1, _, ih.2 ⟨others, rfl, all.2, rfl, by simp⟩, rfl⟩

theorem columns_items {α : Type} {items : List α} {make : α → Except Error Sql} {texts : List String}
    {args : List Value} (written : columns {} (items.map make) = .ok (texts, args)) :
    ∃ made : List Sql,
      List.Forall₂ (fun item e => make item = .ok e ∧ e.print.complete = true) items made ∧
      texts = made.map (·.print.text) ∧ args = made.flatMap (·.print.args) := by
  obtain ⟨made, same, complete, rfl, rfl⟩ := columns_eq_ok.1 written
  refine ⟨made, ?_, rfl, rfl⟩
  clear written
  induction items generalizing made with
  | nil =>
    rw [List.map_eq_nil_iff.1 same.symm]
    exact .nil
  | cons item items ih =>
    obtain ⟨e, others, rfl, first, rest⟩ := List.map_eq_cons_iff.1 same.symm
    rw [List.forall_mem_cons] at complete
    exact .cons ⟨first.symm, complete.1⟩ (ih others rest.symm complete.2)

theorem columns_append {es fs : List (Except Error Sql)} {texts others : List String}
    {args more : List Value} (left : columns {} es = .ok (texts, args))
    (right : columns {} fs = .ok (others, more)) :
    columns {} (es ++ fs) = .ok (texts ++ others, args ++ more) := by
  obtain ⟨made, rfl, complete, rfl, rfl⟩ := columns_eq_ok.1 left
  obtain ⟨made', rfl, complete', rfl, rfl⟩ := columns_eq_ok.1 right
  refine columns_eq_ok.2 ⟨made ++ made', by simp, fun e member => ?_, by simp, by simp⟩
  obtain member | member := List.mem_append.1 member
  · exact complete e member
  · exact complete' e member

theorem columns_length {es : List (Except Error Sql)} {texts : List String} {args : List Value}
    (written : columns {} es = .ok (texts, args)) : texts.length = es.length := by
  obtain ⟨made, rfl, -, rfl, -⟩ := columns_eq_ok.1 written
  simp

variable {dialect : Dialect} {entity : Entity}

theorem orderBySql_append {items others : List OrderItem} {x y : OrderBySql}
    (left : orderBySql dialect entity items = .ok x) (right : orderBySql dialect entity others = .ok y) :
    orderBySql dialect entity (items ++ others) = .ok ⟨x.items ++ y.items, x.args ++ y.args⟩ := by
  obtain ⟨⟨texts, args⟩, written, equal⟩ := bind_eq_ok.1 left
  obtain ⟨⟨texts', args'⟩, written', equal'⟩ := bind_eq_ok.1 right
  cases equal
  cases equal'
  rw [orderBySql, List.map_append, columns_append written written']
  rfl

theorem computeSql_append {items others : List ComputeItem} {x y : ComputeSql}
    (left : computeSql dialect entity items = .ok x) (right : computeSql dialect entity others = .ok y) :
    computeSql dialect entity (items ++ others) = .ok ⟨x.columns ++ y.columns, x.args ++ y.args⟩ := by
  obtain ⟨⟨texts, args⟩, written, equal⟩ := bind_eq_ok.1 left
  obtain ⟨⟨texts', args'⟩, written', equal'⟩ := bind_eq_ok.1 right
  cases equal
  cases equal'
  have length : texts.length = items.length := by simpa using columns_length written
  rw [computeSql, List.map_append, columns_append written written']
  simp only [ok_bind, List.zipWith_append length]
  rfl

theorem computeSql_names {items : List ComputeItem} {x : ComputeSql}
    (made : computeSql dialect entity items = .ok x) :
    x.columns.map ComputedColumn.name = items.map ComputeItem.name := by
  obtain ⟨⟨texts, args⟩, written, equal⟩ := bind_eq_ok.1 made
  cases equal
  have length : texts.length = items.length := by simpa using columns_length written
  clear written made
  induction items generalizing texts with
  | nil => cases texts <;> rfl
  | cons item items ih =>
    cases texts with
    | nil => cases length
    | cons text texts => simpa using ih texts (by simpa using length)

end Generation

namespace Typing

variable {entity : Entity}

theorem orderBy_append {first second : List TreeExpr} {number other : Nat} {x y : List OrderItem}
    (left : orderBy entity number first = .ok x) (right : orderBy entity other second = .ok y) :
    orderBy entity number (first ++ second) = .ok (x ++ y) := by
  induction first generalizing number x with
  | nil =>
    cases left
    rw [List.nil_append, List.nil_append]
    induction second generalizing number other y with
    | nil => exact right
    | cons item second ih =>
      obtain ⟨value, descending, rfl⟩ := ordered_of_orderBy right
      obtain ⟨a, type, typed, fresh, others, rest, rfl⟩ := orderBy_ordered.1 right
      exact orderBy_ordered.2 ⟨a, type, typed, fresh, others, ih rest, rfl⟩
  | cons item first ih =>
    obtain ⟨value, descending, rfl⟩ := ordered_of_orderBy left
    obtain ⟨a, type, typed, fresh, others, rest, rfl⟩ := orderBy_ordered.1 left
    exact orderBy_ordered.2 ⟨a, type, typed, fresh, others ++ y, ih rest, rfl⟩

theorem compute_step {done : List ComputeItem} {value : TreeExpr} {cs : List Char} {a : Operand}
    {type : ValueType} (fresh : ∀ other ∈ done, other.name ≠ String.ofList cs)
    (free : entity.property? (String.ofList cs) = none) (typed : operand entity value = .ok (a, type))
    (items : List TreeExpr) :
    compute entity done (.named value (some cs) :: items) =
      compute entity (done ++ [⟨a, String.ofList cs, type⟩]) items := by
  have unused : (done.any fun item => item.name == String.ofList cs) = false := by simpa using fresh
  simp only [compute, readable, ok_bind, unused, free, typed, Bool.false_eq_true, if_false,
    Option.isSome_none]

theorem compute_repeated {done : List ComputeItem} {value : TreeExpr} {cs : List Char}
    {other : ComputeItem} (member : other ∈ done) (same : other.name = String.ofList cs)
    (items : List TreeExpr) :
    compute entity done (.named value (some cs) :: items) =
      refuse (.duplicateAlias (String.ofList cs)) := by
  have used : (done.any fun item => item.name == String.ofList cs) = true :=
    List.any_eq_true.2 ⟨other, member, by simpa using same⟩
  simp only [compute, readable, ok_bind, used, if_true]

theorem compute_append {first second : List TreeExpr} {done x : List ComputeItem}
    (left : compute entity done first = .ok x) :
    compute entity done (first ++ second) = compute entity x second := by
  induction first generalizing done with
  | nil =>
    cases left
    rfl
  | cons item first ih =>
    obtain ⟨value, text, rfl⟩ := named_of_compute left
    obtain ⟨cs, rfl, fresh, free, a, type, typed, rest⟩ := compute_named.1 left
    rw [List.cons_append, compute_step fresh free typed, ih rest]

theorem compute_extends {items : List TreeExpr} {done all : List ComputeItem}
    (typed : compute entity done items = .ok all) : ∃ new, all = done ++ new := by
  induction items generalizing done with
  | nil =>
    cases typed
    exact ⟨[], by simp⟩
  | cons item items ih =>
    obtain ⟨value, text, rfl⟩ := named_of_compute typed
    obtain ⟨cs, rfl, fresh, free, a, type, read, rest⟩ := compute_named.1 typed
    obtain ⟨new, rfl⟩ := ih rest
    exact ⟨⟨a, String.ofList cs, type⟩ :: new, by simp⟩

/-- Items behind others: if their names are new there they are added, and otherwise the first name that
is not new is refused. -/
theorem compute_behind {items : List TreeExpr} {done new : List ComputeItem}
    (typed : compute entity done items = .ok (done ++ new)) (before : List ComputeItem) :
    ((before.map ComputeItem.name).Disjoint (new.map ComputeItem.name) →
      compute entity (before ++ done) items = .ok (before ++ (done ++ new))) ∧
    (¬ (before.map ComputeItem.name).Disjoint (new.map ComputeItem.name) →
      ∃ name ∈ before.map ComputeItem.name, name ∈ new.map ComputeItem.name ∧
        compute entity (before ++ done) items = refuse (.duplicateAlias name)) := by
  induction items generalizing done new with
  | nil =>
    obtain rfl : new = [] := by simpa [compute] using typed
    simp [compute]
  | cons item items ih =>
    obtain ⟨value, text, rfl⟩ := named_of_compute typed
    obtain ⟨cs, rfl, fresh, free, a, type, read, rest⟩ := compute_named.1 typed
    obtain ⟨more, same⟩ := compute_extends rest
    rw [List.append_assoc, List.append_cancel_left_eq, List.singleton_append] at same
    subst same
    rw [List.map_cons, List.disjoint_cons_right]
    by_cases used : String.ofList cs ∈ before.map ComputeItem.name
    · refine ⟨fun apart => absurd used apart.1, fun _ => ⟨_, used, List.mem_cons_self, ?_⟩⟩
      obtain ⟨other, member, name⟩ := List.mem_map.1 used
      exact compute_repeated (List.mem_append_left _ member) name items
    · have unused : ∀ other ∈ before ++ done, other.name ≠ String.ofList cs := by
        intro other member same
        obtain member | member := List.mem_append.1 member
        · exact used (List.mem_map.2 ⟨other, member, same⟩)
        · exact fresh other member same
      rw [List.append_cons done _ more] at rest
      obtain ⟨apart, clash⟩ := ih rest
      rw [compute_step unused free read, List.append_assoc, List.append_cons done _ more]
      refine ⟨fun disjoint => apart disjoint.2, fun common => ?_⟩
      obtain ⟨name, member, later, refused⟩ := clash fun disjoint => common ⟨used, disjoint⟩
      exact ⟨name, member, List.mem_cons_of_mem _ later, refused⟩

end Typing

namespace Compiler

variable {a b : String} {p q r : Pool} (first : p.Reachable) (second : q.Reachable) (third : r.Reachable)
  (few : ∀ ts, Token.tokenize (a ++ "," ++ b) = .ok ts → ts.length ≤ handles) {dialect : Dialect}
  {entity : Entity}
include first second third few

theorem orderBy_comma {x y : OrderBySql} (left : (orderBy dialect a entity p).1 = .ok x)
    (right : (orderBy dialect b entity q).1 = .ok y) :
    (orderBy dialect (a ++ "," ++ b) entity r).1 = .ok ⟨x.items ++ y.items, x.args ++ y.args⟩ := by
  obtain ⟨items, modelled, generated⟩ := generate_eq_ok.1 left
  obtain ⟨others, modelled', generated'⟩ := generate_eq_ok.1 right
  obtain ⟨values, itemized⟩ := Itemized.of_orderByModel modelled
  obtain ⟨values', itemized'⟩ := Itemized.of_orderByModel modelled'
  obtain ⟨left, right⟩ := itemized.few_of_comma itemized' few
  rw [itemized.orderByModel first left] at modelled
  rw [itemized'.orderByModel second right] at modelled'
  have whole := (itemized.append (by decide) itemized').orderByModel third few entity
  rw [Typing.orderBy_append modelled modelled'] at whole
  exact generate_eq_ok.2 ⟨_, whole, Generation.orderBySql_append generated generated'⟩

theorem compute_comma {x y : ComputeSql} (left : (compute dialect a entity p).1 = .ok x)
    (right : (compute dialect b entity q).1 = .ok y) :
    ((x.columns.map ComputedColumn.name).Disjoint (y.columns.map ComputedColumn.name) →
      (compute dialect (a ++ "," ++ b) entity r).1 =
        .ok ⟨x.columns ++ y.columns, x.args ++ y.args⟩) ∧
    (¬ (x.columns.map ComputedColumn.name).Disjoint (y.columns.map ComputedColumn.name) →
      ∃ name ∈ x.columns.map ComputedColumn.name, name ∈ y.columns.map ComputedColumn.name ∧
        (compute dialect (a ++ "," ++ b) entity r).1 =
          .error (.error (.invalid (.duplicateAlias name)))) := by
  obtain ⟨items, modelled, generated⟩ := generate_eq_ok.1 left
  obtain ⟨others, modelled', generated'⟩ := generate_eq_ok.1 right
  obtain ⟨values, itemized⟩ := Itemized.of_computeModel modelled
  obtain ⟨values', itemized'⟩ := Itemized.of_computeModel modelled'
  obtain ⟨left, right⟩ := itemized.few_of_comma itemized' few
  rw [itemized.computeModel first left] at modelled
  rw [itemized'.computeModel second right] at modelled'
  have whole := (itemized.append (by decide) itemized').computeModel third few entity
  rw [Typing.compute_append modelled] at whole
  obtain ⟨apart, clash⟩ := Typing.compute_behind modelled' items
  rw [List.append_nil] at apart clash
  rw [Generation.computeSql_names generated, Generation.computeSql_names generated']
  refine ⟨fun disjoint => ?_, fun common => ?_⟩
  · rw [apart disjoint] at whole
    exact generate_eq_ok.2 ⟨_, whole, Generation.computeSql_append generated generated'⟩
  · obtain ⟨name, member, later, refused⟩ := clash common
    rw [refused] at whole
    refine ⟨name, member, later, ?_⟩
    rw [compute, generate, whole]
    rfl

end Compiler

theorem Compiler.orderBy_repeated {p : Pool} (reachable : p.Reachable) {source : String} {ts : List Token}
    (lexed : Token.tokenize source = .ok ts) {dialect : Dialect} {entity : Entity} {item : String}
    (done : (orderBy dialect source entity p).1 = .ok ⟨[item], []⟩) {n : Nat}
    (few : (n + 1) * ts.length ≤ handles) :
    (orderBy dialect (repeated source n) entity p).1 = .ok ⟨List.replicate (n + 1) item, []⟩ := by
  induction n with
  | zero => exact done
  | succ n ih =>
    have fewer : (n + 1) * ts.length ≤ handles := by
      rw [Nat.succ_mul] at few
      omega
    refine orderBy_comma reachable reachable reachable (fun us whole => ?_) done (ih fewer)
    obtain ⟨vs, again, length, -⟩ := Lexing.tokenize_repeated lexed (n + 1)
    cases whole.symm.trans again
    rwa [length]

/-- Order clauses and compute clauses are put together with a comma: the SQL has the items of both and
the arguments of both, one after the other. If both compute clauses give a column the same name, the whole
is refused as invalid. There are no more tokens than a tree has handles. -/
theorem list_clauses_compose {a b : String}
    (few : ∀ ts, Token.tokenize (a ++ "," ++ b) = .ok ts → ts.length ≤ 2 ^ 32)
    {p q r : Pool} (first : p.Reachable) (second : q.Reachable) (third : r.Reachable)
    (dialect : Dialect) (entity : Entity) :
    (∀ x y, (Compiler.orderBy dialect a entity p).1 = .ok x →
      (Compiler.orderBy dialect b entity q).1 = .ok y →
      (Compiler.orderBy dialect (a ++ "," ++ b) entity r).1 =
        .ok ⟨x.items ++ y.items, x.args ++ y.args⟩) ∧
    ∀ x y, (Compiler.compute dialect a entity p).1 = .ok x →
      (Compiler.compute dialect b entity q).1 = .ok y →
      ((x.columns.map ComputedColumn.name).Disjoint (y.columns.map ComputedColumn.name) →
        (Compiler.compute dialect (a ++ "," ++ b) entity r).1 =
          .ok ⟨x.columns ++ y.columns, x.args ++ y.args⟩) ∧
      (¬ (x.columns.map ComputedColumn.name).Disjoint (y.columns.map ComputedColumn.name) →
        ∃ name ∈ x.columns.map ComputedColumn.name, name ∈ y.columns.map ComputedColumn.name ∧
          (Compiler.compute dialect (a ++ "," ++ b) entity r).1 =
            .error (.error (.invalid (.duplicateAlias name)))) :=
  ⟨fun _ _ => Compiler.orderBy_comma first second third few,
    fun _ _ => Compiler.compute_comma first second third few⟩

theorem list_clauses_compose_priced :
    let entity : Entity :=
      { name := "Item"
        members := [("Name", .primitive ⟨"name", .text, true, none⟩),
          ("Price", .primitive ⟨"price", .decimal, true, none⟩)] }
    (Compiler.orderBy .sqlite ("Price add 1 desc" ++ "," ++ "concat(Name,',')") entity .default).1 =
        .ok ⟨["(price + ?) DESC", "(name || ?) ASC"], [.integer 1, .text ","]⟩ ∧
      (Compiler.compute .sqlite ("Price mul 2 as Twice" ++ "," ++ "concat(Name,',') as Label") entity
          .default).1 =
        .ok ⟨[⟨"(price * ?) AS \"Twice\"", "Twice"⟩, ⟨"(name || ?) AS \"Label\"", "Label"⟩],
          [.integer 2, .text ","]⟩ ∧
      (Compiler.compute .sqlite ("Price mul 2 as Twice" ++ "," ++ "Price as Twice") entity .default).1 =
        .error (.error (.invalid (.duplicateAlias "Twice"))) := by
  intro entity
  have order : (Compiler.orderBy .sqlite "Price add 1 desc" entity .default).1 =
      .ok ⟨["(price + ?) DESC"], [.integer 1]⟩ := by decide +kernel
  have next : (Compiler.orderBy .sqlite "concat(Name,',')" entity .default).1 =
      .ok ⟨["(name || ?) ASC"], [.text ","]⟩ := by decide +kernel
  have twice : (Compiler.compute .sqlite "Price mul 2 as Twice" entity .default).1 =
      .ok ⟨[⟨"(price * ?) AS \"Twice\"", "Twice"⟩], [.integer 2]⟩ := by decide +kernel
  have label : (Compiler.compute .sqlite "concat(Name,',') as Label" entity .default).1 =
      .ok ⟨[⟨"(name || ?) AS \"Label\"", "Label"⟩], [.text ","]⟩ := by decide +kernel
  have again : (Compiler.compute .sqlite "Price as Twice" entity .default).1 =
      .ok ⟨[⟨"price AS \"Twice\"", "Twice"⟩], []⟩ := by decide +kernel
  have pool : Pool.default.Reachable := .ofCapacity _
  have ordered := (list_clauses_compose (Lexing.length_le_of_short (by decide)) pool pool pool .sqlite
    entity).1 _ _ order next
  have computed := ((list_clauses_compose (Lexing.length_le_of_short (by decide)) pool pool pool .sqlite
    entity).2 _ _ twice label).1
  have clash := ((list_clauses_compose (Lexing.length_le_of_short (by decide)) pool pool pool .sqlite
    entity).2 _ _ twice again).2
  obtain ⟨name, member, -, refused⟩ := clash (by simp)
  obtain rfl : name = "Twice" := by simpa using member
  exact ⟨ordered, computed (by simp), refused⟩

/-- Two clauses that have half as many items as there are handles come to nothing when they are put
together. -/
theorem joined_halves_lose_their_items :
    let entity : Entity := { name := "Item", members := [("A", .primitive ⟨"a", .integer, true, none⟩)] }
    let half := repeated "A" (2 ^ 31 - 1)
    (Compiler.orderBy .sqlite half entity .default).1 = .ok ⟨List.replicate (2 ^ 31) "a ASC", []⟩ ∧
      (Compiler.orderBy .sqlite (half ++ "," ++ half) entity .default).1 = .ok ⟨[], []⟩ := by
  intro entity half
  have lexed : Token.tokenize "A" = .ok [⟨.identifier, 0, ['A']⟩, ⟨.eof, 1, []⟩] := by decide +kernel
  have done : (Compiler.orderBy .sqlite "A" entity .default).1 = .ok ⟨["a ASC"], []⟩ := by decide +kernel
  have number : 2 ^ 31 - 1 + 1 = 2 ^ 31 := by decide
  have items := Itemized.single_letter.repeated (by decide) (2 ^ 31 - 1)
  have model := (items.append (by decide) items).orderByModel_of_full
    (by rw [List.length_append, List.length_replicate, number]; rfl) entity .default
  refine ⟨?_, ?_⟩
  · have order := Compiler.orderBy_repeated (.ofCapacity _) lexed done (n := 2 ^ 31 - 1)
      (by rw [number]; decide)
    rwa [number] at order
  · rw [Compiler.orderBy, Compiler.generate, model]
    rfl

end ClauseSql
