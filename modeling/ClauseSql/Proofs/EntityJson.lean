import ClauseSql.Entity.Json
import ClauseSql.Proofs.PathWalks
import Mathlib.Data.List.Induction
import Mathlib.Data.String.Basic

/-! Entities in their JSON form. What is written for an entity is read back as the same entity, and what is
read from any value is written in a form that is read as the same again. Members lie in the order of their
names; the reader puts them in that order, so a list of members in another order is no entity that could be
read. The fields of the format and the names of properties never stand in one object. -/
namespace ClauseSql

/-- The names increase strictly, and so do those of the members of each property. -/
inductive Members.Ordered : Members → Prop
  | nil : Ordered []
  | cons {name : String} {property : Property} {rest : Members} :
      (∀ inner, property.inner? = some inner → Ordered inner) →
      (∀ other ∈ rest.names, name < other) → Ordered rest → Ordered ((name, property) :: rest)

def Property.Ordered (p : Property) : Prop := ∀ inner, p.inner? = some inner → inner.Ordered

namespace Members

theorem mem_names_insert {name other : String} {p : Property} {ms : Members} :
    other ∈ (insert name p ms).names ↔ other = name ∨ other ∈ ms.names := by
  induction ms with
  | nil => simp [insert, names]
  | cons m ms ih =>
    obtain ⟨first, kept⟩ := m
    simp only [names, List.map_cons, List.mem_cons] at ih ⊢
    unfold insert
    split
    · simp
    · split
      · next same => simp [same]
      · simp only [List.map_cons, List.mem_cons, ih]
        tauto

theorem insert_ordered {name : String} {p : Property} {ms : Members} (own : p.Ordered)
    (ordered : ms.Ordered) : (insert name p ms).Ordered := by
  induction ordered with
  | nil => exact .cons own (by simp [names]) .nil
  | @cons first kept rest inner above below _ ih =>
    unfold insert
    split
    · next less =>
      refine .cons own (fun other member => ?_) (.cons inner above below)
      rcases List.mem_cons.1 member with rfl | later
      · exact less
      · exact lt_trans less (above other later)
    · next notLess =>
      split
      · next same =>
        subst same
        exact .cons own above below
      · next different =>
        refine .cons inner (fun other member => ?_) ih
        rcases mem_names_insert.1 member with rfl | later
        · exact lt_of_le_of_ne (not_lt.1 notLess) (Ne.symm different)
        · exact above other later

theorem insert_last {name : String} {p : Property} {ms : Members}
    (above : ∀ other ∈ ms.names, other < name) : insert name p ms = ms ++ [(name, p)] := by
  induction ms with
  | nil => rfl
  | cons m ms ih =>
    obtain ⟨first, kept⟩ := m
    simp only [names, List.map_cons, List.mem_cons, forall_eq_or_imp] at above ih
    rw [insert, if_neg (lt_asymm above.1), if_neg (ne_of_gt above.1), ih above.2, List.cons_append]

theorem ofList_concat (entries : List (String × Property)) (name : String) (p : Property) :
    ofList (entries ++ [(name, p)]) = insert name p (ofList entries) := by
  simp [ofList, List.foldl_append]

theorem ofList_ordered {entries : List (String × Property)} (each : ∀ m ∈ entries, m.2.Ordered) :
    (ofList entries).Ordered := by
  induction entries using List.reverseRecOn with
  | nil => exact .nil
  | append_singleton entries m ih =>
    obtain ⟨name, p⟩ := m
    rw [ofList_concat]
    refine insert_ordered (each (name, p) (by simp)) (ih fun other member => ?_)
    exact each other (List.mem_append_left _ member)

theorem Ordered.pairwise {ms : Members} (ordered : ms.Ordered) : ms.names.Pairwise (· < ·) := by
  induction ordered with
  | nil => exact .nil
  | cons _ above _ _ ih => exact .cons above ih

theorem ofList_of_pairwise {ms : Members} (sorted : ms.names.Pairwise (· < ·)) : ofList ms = ms := by
  induction ms using List.reverseRecOn with
  | nil => rfl
  | append_singleton ms m ih =>
    obtain ⟨name, p⟩ := m
    simp only [names, List.map_append, List.map_cons, List.map_nil, List.pairwise_append,
      List.mem_singleton, forall_eq] at sorted ih
    rw [ofList_concat, ih sorted.1, insert_last sorted.2.2]

end Members

theorem ColumnType.ofName?_name (type : ColumnType) : ofName? type.name = some type := by
  cases type <;> decide

namespace Column

theorem maxLengthOf?_length (length : UInt32) :
    maxLengthOf? (some (.integer length.toNat)) = some (some length) := by
  have small : (length.toNat : Int) < lengthLimit := by
    have := length.toNat_lt
    simp only [lengthLimit]
    omega
  simp [maxLengthOf?, small]

theorem ofJson?_toJson (c : Column) (kind : Json) :
    ofJson? (.object (("kind", kind) :: c.toJson)) = some c := by
  obtain ⟨name, type, nullable, maxLength⟩ := c
  have type : ColumnType.ofJson? (.string type.name) = some type := type.ofName?_name
  have unlimited : maxLengthOf? (some .null) = some none := rfl
  cases maxLength <;>
    simp [ofJson?, Json.record?, Json.once?, toJson, Json.string?, type, nullableOf?, Json.bool?,
      unlimited, maxLengthOf?_length]

end Column

namespace Property

theorem field?_kind (c : Column) (kind : Json) : field? (("kind", kind) :: c.toJson) "kind" = some kind := by
  simp [field?, single, Column.toJson]

theorem ofJson?_toJson {p : Property}
    (inner : ∀ ms, p.inner? = some ms → membersOf? (.object (allToJson ms)) = some ms) :
    ofJson? p.toJson = some p := by
  cases p with
  | primitive column =>
    rw [toJson, ofJson?, field?_kind]
    simp [Kind.ofJson?, Column.ofJson?_toJson]
  | complex ms =>
    have read := inner ms rfl
    simp [toJson, ofJson?, field?, single, Kind.ofJson?, membersIn, read]
  | navigation qualifier ms =>
    have read := inner ms rfl
    simp [toJson, ofJson?, field?, single, Kind.ofJson?, targetsIn, structuredOf?, membersIn, read,
      Json.string?]

/-- The reader puts members in order, which does nothing to those that are in order already. -/
theorem membersOf?_of_ordered {fields : List (String × Json)} {ms : Members} (ordered : ms.Ordered)
    (read : allOf? fields = some ms) : membersOf? (.object fields) = some ms := by
  rw [membersOf?, read, Option.map_some, Members.ofList_of_pairwise ordered.pairwise]

theorem allOf?_allToJson {ms : Members} (ordered : ms.Ordered) : allOf? (allToJson ms) = some ms := by
  induction ordered with
  | nil => rfl
  | cons inner _ _ again ih =>
    -- `again` is the induction on the members of the first property, `ih` the one on the others.
    have own := ofJson?_toJson fun ms opens => membersOf?_of_ordered (inner ms opens) (again ms opens)
    simp [allToJson, allOf?, own, ih]

end Property

namespace Entity

theorem keysIn?_strings (fields : List (String × Json)) (keys : List String)
    (read : Json.once? fields "keys" = some (some (.array (keys.map .string)))) :
    keysIn? fields = some keys := by
  have all : (keys.map Json.string).mapM Json.string? = some keys := by
    clear read
    induction keys with
    | nil => rfl
    | cons key keys ih => simp [List.mapM_cons, ih, Json.string?]
  simp [keysIn?, read, Json.strings?, all]

theorem ofJson?_toJson {e : Entity} (ordered : e.members.Ordered) : ofJson? e.toJson = some e := by
  have members := Property.membersOf?_of_ordered ordered (Property.allOf?_allToJson ordered)
  have keys := keysIn?_strings [("name", .string e.name), ("keys", .array (e.keys.map .string)),
    ("properties", .object (Property.allToJson e.members))] e.keys (by simp [Json.once?])
  simp [toJson, ofJson?, keys, Property.field?, Property.single, Property.membersIn, members, Json.string?]

end Entity

namespace Property

theorem ordered_of_single {readings : List (Option Members)} {ms : Members}
    (each : ∀ ms, some ms ∈ readings → ms.Ordered) (read : single readings = some ms) : ms.Ordered := by
  unfold single at read
  split at read
  · exact each ms (by simp [read])
  · cases read

theorem ordered_of_column {column : Option Column} {p : Property}
    (read : column.map primitive = some p) : p.Ordered := by
  obtain ⟨column, -, rfl⟩ := Option.map_eq_some_iff.1 read
  intro inner opens
  cases opens

theorem ordered_complex {ms : Members} (ordered : ms.Ordered) : (complex ms).Ordered := by
  intro inner opens
  cases opens
  exact ordered

theorem ordered_navigation {ms : Members} (qualifier : String) (ordered : ms.Ordered) :
    (navigation qualifier ms).Ordered := by
  intro inner opens
  cases opens
  exact ordered

-- One theorem for each function of the reader, by recursion on the value that it reads.
mutual
theorem ordered_of_ofJson? (j : Json) {p : Property} (read : ofJson? j = some p) : p.Ordered := by
  cases j with
  | object fields =>
    simp only [ofJson?, Option.bind_eq_bind, Option.bind_eq_some_iff] at read
    obtain ⟨_, -, kind, -, read⟩ := read
    cases kind with
    | primitive => exact ordered_of_column read
    | complex =>
      obtain ⟨ms, members, rfl⟩ := Option.map_eq_some_iff.1 read
      exact ordered_complex (ordered_of_single (ordered_of_membersIn fields) members)
    | navigation =>
      simp only [Option.bind_eq_some_iff] at read
      obtain ⟨_, -, qualifier, -, ms, target, equal⟩ := read
      cases equal
      exact ordered_navigation qualifier (ordered_of_single (ordered_of_targetsIn fields) target)
  | array items =>
    rcases items with _ | ⟨first, _ | ⟨value, _ | ⟨target, _ | ⟨more, others⟩⟩⟩⟩
    · cases read
    -- Of the other lengths, a pair may hold members and a triple may hold a target.
    all_goals
      simp only [ofJson?, Option.bind_eq_bind, Option.bind_eq_some_iff] at read
      obtain ⟨kind, -, read⟩ := read
      cases kind
    any_goals first | exact ordered_of_column read | cases read
    · obtain ⟨ms, members, rfl⟩ := Option.map_eq_some_iff.1 read
      exact ordered_complex (ordered_of_membersOf? value members)
    · simp only [Option.bind_eq_some_iff] at read
      obtain ⟨qualifier, -, ms, inner, equal⟩ := read
      cases equal
      exact ordered_navigation qualifier (ordered_of_structuredOf? target inner)
  | _ => cases read
theorem ordered_of_membersOf? (j : Json) {ms : Members} (read : membersOf? j = some ms) :
    ms.Ordered := by
  cases j with
  | object fields =>
    obtain ⟨entries, all, rfl⟩ := Option.map_eq_some_iff.1 read
    exact Members.ofList_ordered (ordered_of_allOf? fields all)
  | _ => cases read
theorem ordered_of_allOf? (fields : List (String × Json)) {entries : List (String × Property)}
    (read : allOf? fields = some entries) : ∀ m ∈ entries, m.2.Ordered := by
  cases fields with
  | nil =>
    cases read
    simp
  | cons field fields =>
    obtain ⟨name, value⟩ := field
    simp only [allOf?, Option.bind_eq_bind, Option.bind_eq_some_iff] at read
    obtain ⟨p, own, others, rest, equal⟩ := read
    cases equal
    simp only [List.mem_cons, forall_eq_or_imp]
    exact ⟨ordered_of_ofJson? value own, ordered_of_allOf? fields rest⟩
theorem ordered_of_structuredOf? (j : Json) {ms : Members} (read : structuredOf? j = some ms) :
    ms.Ordered := by
  cases j with
  | object fields => exact ordered_of_single (ordered_of_membersIn fields) read
  | array items =>
    rcases items with _ | ⟨value, _ | ⟨other, more⟩⟩
    · cases read
    · exact ordered_of_membersOf? value read
    · cases read
  | _ => cases read
theorem ordered_of_membersIn (fields : List (String × Json)) :
    ∀ ms, some ms ∈ membersIn fields → ms.Ordered := by
  cases fields with
  | nil => simp [membersIn]
  | cons field fields =>
    obtain ⟨name, value⟩ := field
    intro ms member
    simp only [membersIn] at member
    split at member
    · rcases List.mem_cons.1 member with read | later
      · exact ordered_of_membersOf? value read.symm
      · exact ordered_of_membersIn fields ms later
    · exact ordered_of_membersIn fields ms member
theorem ordered_of_targetsIn (fields : List (String × Json)) :
    ∀ ms, some ms ∈ targetsIn fields → ms.Ordered := by
  cases fields with
  | nil => simp [targetsIn]
  | cons field fields =>
    obtain ⟨name, value⟩ := field
    intro ms member
    simp only [targetsIn] at member
    split at member
    · rcases List.mem_cons.1 member with read | later
      · exact ordered_of_structuredOf? value read.symm
      · exact ordered_of_targetsIn fields ms later
    · exact ordered_of_targetsIn fields ms member
end

end Property

theorem Entity.ordered_of_ofJson? {j : Json} {e : Entity} (read : Entity.ofJson? j = some e) :
    e.members.Ordered := by
  cases j with
  | object fields =>
    simp only [Entity.ofJson?, Option.bind_eq_bind, Option.bind_eq_some_iff] at read
    obtain ⟨_, -, name, -, keys, -, ms, members, equal⟩ := read
    cases equal
    exact Property.ordered_of_single (Property.ordered_of_membersIn fields) members
  | _ => cases read

inductive Json.Unambiguous : Json → Prop
  | null : Unambiguous .null
  | bool {b : Bool} : Unambiguous (.bool b)
  | integer {i : Int} : Unambiguous (.integer i)
  | float {x : Binary64} : Unambiguous (.float x)
  | string {s : String} : Unambiguous (.string s)
  | array {items : List Json} : (∀ item ∈ items, Unambiguous item) → Unambiguous (.array items)
  | object {fields : List (String × Json)} : (fields.map Prod.fst).Nodup →
      (∀ field ∈ fields, Unambiguous field.2) → Unambiguous (.object fields)

namespace Property

theorem names_allToJson (ms : Members) : (allToJson ms).map Prod.fst = ms.names := by
  induction ms with
  | nil => rfl
  | cons m ms ih =>
    obtain ⟨name, p⟩ := m
    simpa [allToJson, Members.names] using ih

theorem toJson_unambiguous {p : Property}
    (inner : ∀ ms, p.inner? = some ms → (Json.object (allToJson ms)).Unambiguous) :
    p.toJson.Unambiguous := by
  cases p with
  | primitive column =>
    rw [toJson]
    refine .object (by simp [Column.toJson]) ?_
    simp only [Column.toJson, List.forall_mem_cons, List.not_mem_nil, false_implies, implies_true, and_true]
    refine ⟨.string, .string, .string, .bool, ?_⟩
    split
    · exact .integer
    · exact .null
  | complex ms =>
    rw [toJson]
    refine .object (by simp) ?_
    simp [Json.Unambiguous.string, inner ms rfl]
  | navigation qualifier ms =>
    have target : (Json.object [("properties", .object (allToJson ms))]).Unambiguous :=
      .object (by simp) (by simp [inner ms rfl])
    rw [toJson]
    refine .object (by simp) ?_
    simp [Json.Unambiguous.string, target]

theorem object_unambiguous {ms : Members} (ordered : ms.Ordered)
    (each : ∀ field ∈ allToJson ms, field.2.Unambiguous) : (Json.object (allToJson ms)).Unambiguous := by
  refine .object ?_ each
  rw [names_allToJson]
  exact ordered.pairwise.imp ne_of_lt

theorem allToJson_unambiguous {ms : Members} (ordered : ms.Ordered) :
    ∀ field ∈ allToJson ms, field.2.Unambiguous := by
  induction ordered with
  | nil => simp [allToJson]
  | cons inner _ _ again ih =>
    have own := toJson_unambiguous fun ms opens => object_unambiguous (inner ms opens) (again ms opens)
    simp only [allToJson, List.forall_mem_cons]
    exact ⟨own, ih⟩

end Property

theorem Entity.toJson_unambiguous {e : Entity} (ordered : e.members.Ordered) :
    e.toJson.Unambiguous := by
  have members := Property.object_unambiguous ordered (Property.allToJson_unambiguous ordered)
  have keys : (Json.array (e.keys.map .string)).Unambiguous := .array (by simp [Json.Unambiguous.string])
  rw [Entity.toJson]
  refine .object (by simp) ?_
  simp [Json.Unambiguous.string, members, keys]

/-- An entity is read back from what is written for it, exactly if its members are in order. Whatever a
value is read as is in order, so writing it and reading it again changes nothing. -/
theorem entities_survive_json :
    (∀ e : Entity, (Entity.ofJson? e.toJson = some e ↔ e.members.Ordered) ∧
      (e.members.Ordered → e.toJson.Unambiguous)) ∧
    ∀ (j : Json) (e : Entity), Entity.ofJson? j = some e →
      ∃ again, Entity.ofJson? e.toJson = some again ∧ again = e ∧
        (∀ path, again.resolve path = e.resolve path) ∧ again.validate = e.validate := by
  refine ⟨fun e => ⟨⟨Entity.ordered_of_ofJson?, Entity.ofJson?_toJson⟩, Entity.toJson_unambiguous⟩, ?_⟩
  intro j e read
  exact ⟨e, Entity.ofJson?_toJson (Entity.ordered_of_ofJson? read), rfl, fun _ => rfl, rfl⟩

theorem entities_survive_json_named_like_fields :
    let column : Column := ⟨"kind", .time, true, none⟩
    let entity : Entity :=
      { name := "properties"
        keys := ["kind"]
        members := [("kind", .primitive ⟨"name", .text, false, some 7⟩),
          ("properties", .complex [("kind", .primitive column), ("target", .complex [])]),
          ("target", .navigation "kind" [("properties", .primitive column)])] }
    let short : Json := .object [("properties", .object
      [("target", .array [.integer 0, .string "kind", .string "time"]),
       ("kind", .object [("properties", .object []), ("kind", .string "complex")])]), ("name", .string "keys")]
    Entity.ofJson? entity.toJson = some entity ∧
    ∃ e again, Entity.ofJson? short = some e ∧ e.members.names = ["kind", "target"] ∧
      Entity.ofJson? e.toJson = some again ∧ again.resolve "target" = .ok ⟨none, column⟩ := by
  intro column entity short
  have primitive : ∀ c : Column, (Property.primitive c).Ordered := fun c =>
    @Property.ordered_of_column (some c) _ rfl
  have complex : Members.Ordered [("kind", .primitive column), ("target", .complex [])] :=
    .cons (primitive _) (by decide) (.cons (Property.ordered_complex .nil) (by decide) .nil)
  have target : Members.Ordered [("properties", .primitive column)] := .cons (primitive _) (by decide) .nil
  have ordered : entity.members.Ordered :=
    .cons (primitive _) (by decide) (.cons (Property.ordered_complex complex) (by decide)
      (.cons (Property.ordered_navigation _ target) (by decide) .nil))
  have read : Entity.ofJson? short =
      some ⟨"keys", [], [("kind", .complex []), ("target", .primitive column)]⟩ := rfl
  obtain ⟨again, reread, -, same, -⟩ := entities_survive_json.2 short _ read
  refine ⟨(entities_survive_json.1 entity).1.2 ordered, _, again, read, rfl, reread, ?_⟩
  rw [same]
  rfl

end ClauseSql
