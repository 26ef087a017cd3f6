import ClauseSql.Model.Typing

/-! Where a path leads. Its segments are the pieces between its slashes. Each but the last leads from
members to the members of the complex or navigation property that it names, and the last one names a
column. The column takes its qualifier from the last navigation on the way. A path that leads to no
column is reported at the first segment that cannot be followed. -/
namespace ClauseSql

namespace Path

def parts (path : String) : List String := (path.split '/').toList.map String.Slice.copy

theorem splitOn_eq_segments (cs : List Char) :
    cs.splitOn '/' = (segments cs).1 :: (segments cs).2 := by
  induction cs with
  | nil => rfl
  | cons c cs ih =>
    rw [List.splitOn_cons_eq_if_modifyHead, ih]
    by_cases slash : c = '/' <;> simp [segments, slash]

theorem parts_eq (path : String) :
    parts path = String.ofList (segments path.toList).1 ::
      (segments path.toList).2.map String.ofList := by
  rw [parts, String.toList_split_char, splitOn_eq_segments, List.map_cons]

end Path

namespace Property

def inner? : Property → Option Members
  | .primitive _ => none
  | .complex members => some members
  | .navigation _ members => some members

def qualifier? : Property → Option String
  | .navigation qualifier _ => some qualifier
  | _ => none

end Property

/-- The segments lead from some members to others. Each names a complex or navigation property in the
members reached so far; these properties are the ones crossed. -/
inductive Leads : Members → List String → (crossed : List Property) → Members → Prop
  | here {ms : Members} : Leads ms [] [] ms
  | through {ms inner reached : Members} {segment : String} {property : Property}
      {segments : List String} {crossed : List Property} : ms.find? segment = some property →
      property.inner? = some inner → Leads inner segments crossed reached →
      Leads ms (segment :: segments) (property :: crossed) reached

def lastQualifier (crossed : List Property) : Option String :=
  (crossed.filterMap Property.qualifier?).getLast?

/-- What a path comes to, given its segments. The segments before the one that decides all lead on. -/
inductive Walks (e : Entity) : List String → Except PathError Located → Prop
  | column {before : List String} {last : String} {crossed : List Property} {reached : Members}
      {column : Column} : Leads e.members before crossed reached →
      reached.find? last = some (.primitive column) →
      Walks e (before ++ [last]) (.ok ⟨lastQualifier crossed, column⟩)
  | missing {before after : List String} {segment : String} {crossed : List Property}
      {reached : Members} : Leads e.members before crossed reached → reached.find? segment = none →
      Walks e (before ++ segment :: after) (.error (.missing segment (before.getLast?.getD e.name)))
  | notStructured {before after : List String} {segment next : String} {crossed : List Property}
      {reached : Members} {column : Column} : Leads e.members before crossed reached →
      reached.find? segment = some (.primitive column) →
      Walks e (before ++ segment :: next :: after) (.error (.notStructured segment))
  | notAValue {before : List String} {last : String} {crossed : List Property}
      {reached inner : Members} {property : Property} : Leads e.members before crossed reached →
      reached.find? last = some property → property.inner? = some inner →
      Walks e (before ++ [last]) (.error (.notAValue last))

theorem lastQualifier_cons (property : Property) (crossed : List Property) (q : Option String) :
    (lastQualifier (property :: crossed)).or q =
      (lastQualifier crossed).or (property.qualifier?.or q) := by
  unfold lastQualifier
  cases own : property.qualifier? with
  | none => simp [own]
  | some qualifier =>
    rw [List.filterMap_cons_some own, List.getLast?_cons]
    cases (crossed.filterMap Property.qualifier?).getLast? <;> rfl

section Steps

variable {ms inner : Members} {segment : String} {property : Property}

theorem walk_step (found : ms.find? segment = some property) (opens : property.inner? = some inner)
    (owner : String) (q : Option String) (next : String) (others : List String) :
    ms.walk owner q segment (next :: others) =
      inner.walk segment (property.qualifier?.or q) next others := by
  cases property with
  | primitive => cases opens
  | complex | navigation =>
    cases opens
    simp [Members.walk, found, Property.qualifier?]

theorem Leads.walk {reached : Members} {before : List String} {crossed : List Property}
    (leads : Leads ms before crossed reached) {next : String} {after : List String} (owner : String)
    (q : Option String) {first : String} {others : List String}
    (parts : first :: others = before ++ next :: after) :
    ms.walk owner q first others =
      reached.walk (before.getLast?.getD owner) ((lastQualifier crossed).or q) next after := by
  -- Owner and qualifier are what the loop carries, so both have to vary along the induction.
  induction leads generalizing owner q first others with
  | here =>
    cases parts
    rfl
  | @through ms inner reached segment property segments crossed found opens _ ih =>
    rw [List.cons_append] at parts
    obtain ⟨rfl, rfl⟩ := List.cons.inj parts
    obtain ⟨second, rest, split⟩ : ∃ second rest, segments ++ next :: after = second :: rest :=
      List.exists_cons_of_ne_nil (by simp)
    rw [split, walk_step found opens, ih _ _ split.symm, lastQualifier_cons, List.getLast?_cons,
      Option.getD_some]

end Steps

/-- Every path has a segment behind which the walk does not go on: it names nothing that can be entered,
or it is the last. -/
theorem exists_stop (ms : Members) (first : String) (others : List String) :
    ∃ before last after crossed reached, first :: others = before ++ last :: after ∧
      Leads ms before crossed reached ∧
      ∀ property inner, reached.find? last = some property → property.inner? = some inner →
        after = [] := by
  induction others generalizing ms first with
  | nil => exact ⟨[], first, [], [], ms, rfl, .here, fun _ _ _ _ => rfl⟩
  | cons second others ih =>
    by_cases enters : ∃ property inner, ms.find? first = some property ∧ property.inner? = some inner
    · obtain ⟨property, inner, found, opens⟩ := enters
      obtain ⟨before, last, after, crossed, reached, parts, leads, stops⟩ := ih inner second
      exact ⟨first :: before, last, after, property :: crossed, reached, by rw [parts]; rfl,
        .through found opens leads, stops⟩
    · refine ⟨[], first, second :: others, [], ms, rfl, .here, fun property inner found opens => ?_⟩
      exact absurd ⟨property, inner, found, opens⟩ enters

namespace Entity

theorem resolve_eq_walk {e : Entity} {path first : String} {others : List String}
    (parts : Path.parts path = first :: others) :
    e.resolve path = e.members.walk e.name none first others := by
  rw [Path.parts_eq] at parts
  obtain ⟨rfl, rfl⟩ := List.cons.inj parts
  rfl

theorem resolve_of_leads {e : Entity} {path last : String} {before after : List String}
    {crossed : List Property} {reached : Members} (parts : Path.parts path = before ++ last :: after)
    (leads : Leads e.members before crossed reached) :
    e.resolve path = reached.walk (before.getLast?.getD e.name) (lastQualifier crossed) last after := by
  obtain ⟨first, others, split⟩ : ∃ first others, before ++ last :: after = first :: others :=
    List.exists_cons_of_ne_nil (by simp)
  rw [resolve_eq_walk (parts.trans split), leads.walk _ _ split.symm, Option.or_none]

theorem resolve_of_walks {e : Entity} {path : String} {parts : List String}
    {result : Except PathError Located} (split : Path.parts path = parts)
    (walks : Walks e parts result) : e.resolve path = result := by
  cases walks with
  | column leads found => rw [resolve_of_leads split leads, Members.walk, found]
  | @missing _ after _ _ _ leads found =>
    rw [resolve_of_leads split leads]
    cases after <;> rw [Members.walk, found]
  | notStructured leads found => rw [resolve_of_leads split leads, Members.walk, found]
  | @notAValue _ _ _ _ _ property leads found opens =>
    rw [resolve_of_leads split leads, Members.walk, found]
    cases property with
    | primitive => cases opens
    | complex | navigation => rfl

theorem exists_walks (e : Entity) {path first : String} {others : List String}
    (parts : Path.parts path = first :: others) : ∃ result, Walks e (Path.parts path) result := by
  obtain ⟨before, last, after, crossed, reached, split, leads, stops⟩ :=
    exists_stop e.members first others
  rw [parts, split]
  cases found : reached.find? last with
  | none => exact ⟨_, .missing leads found⟩
  | some property =>
    cases opens : property.inner? with
    | some inner =>
      obtain rfl := stops property inner found opens
      exact ⟨_, .notAValue leads found opens⟩
    | none =>
      cases property with
      | primitive column =>
        cases after with
        | nil => exact ⟨_, .column leads found⟩
        | cons next after => exact ⟨_, .notStructured leads found⟩
      | complex | navigation => cases opens

theorem resolve_eq_iff (e : Entity) (path : String) (result : Except PathError Located) :
    e.resolve path = result ↔ Walks e (Path.parts path) result := by
  constructor
  · rintro rfl
    obtain ⟨result, walks⟩ := exists_walks e (Path.parts_eq path)
    rw [resolve_of_walks rfl walks]
    exact walks
  · exact resolve_of_walks rfl

end Entity

/-- Looking a path up is walking through the entity along the path's segments, and where the walk ends
without a column the request is invalid. -/
theorem paths_are_walked (e : Entity) (path : String) :
    (∀ result, e.resolve path = result ↔ Walks e (Path.parts path) result) ∧
    ∀ error, e.resolve path = .error error → ∃ failure,
      Typing.located e path.toList = .error (.error failure) ∧ failure.kind = .invalid ∧
        failure.message = "invalid expression: " ++ error.message := by
  refine ⟨e.resolve_eq_iff path, fun error failed => ⟨.invalid (.path error), ?_, rfl, ?_⟩⟩
  · rw [Typing.located, String.ofList_toList, failed]
    rfl
  · rfl

theorem paths_are_walked_blank :
    let entity : Entity :=
      { name := "Order"
        members := [("Customer", .navigation "c" [("", .complex
          [("City", .primitive ⟨"city", .text, true, none⟩)])])] }
    Walks entity ["Customer", "", "City"] (.ok ⟨some "c", ⟨"city", .text, true, none⟩⟩) ∧
    Walks entity ["Customer", "", "Zip"] (.error (.missing "Zip" "")) ∧
    ∃ failure, Typing.located entity "Customer//Zip".toList = .error (.error failure) ∧
      failure.kind = .invalid ∧
        failure.message = "invalid expression: property 'Zip' does not exist on ''" := by
  intro entity
  have city : Path.parts "Customer//City" = ["Customer", "", "City"] := Path.parts_eq _
  have zip : Path.parts "Customer//Zip" = ["Customer", "", "Zip"] := Path.parts_eq _
  have missing : entity.resolve "Customer//Zip" = .error (.missing "Zip" "") := rfl
  refine ⟨?_, ?_, (paths_are_walked entity "Customer//Zip").2 _ missing⟩
  · rw [← city]
    exact ((paths_are_walked entity "Customer//City").1 _).1 rfl
  · rw [← zip]
    exact ((paths_are_walked entity "Customer//Zip").1 _).1 missing

end ClauseSql
