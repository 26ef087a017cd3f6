import ClauseSql.Proofs.Scalars

/-! Reading SQL values back. The text of a value tells where the value ends and what it is, up to the
values of its placeholders. Two values of different forms have different texts because the search
for a clash between their forms finds none. -/
namespace ClauseSql

open Template

def stops : List Char → Bool
  | [] => true
  | c :: _ => isStop c

theorem dropWhile_word {cs r : List Char} (word : ∀ c ∈ cs, isColumnChar c = true)
    (stop : stops r = true) : (cs ++ r).dropWhile isColumnChar = r := by
  rw [List.dropWhile_append_of_pos word]
  cases r with
  | nil => rfl
  | cons c r =>
    simp only [stops, isStop, Bool.and_eq_true, Bool.not_eq_true'] at stop
    rw [List.dropWhile_cons_of_neg (by simp [stop.1])]

theorem Spelled.stops {d : Dialect} {p : List Segment} {vs : List Sql} {t : List Char}
    (spelled : Spelled d p vs t) (start : startsWith isStop p = true) (r : List Char) :
    ClauseSql.stops (t ++ r) = true ∧ 0 < t.length := by
  obtain ⟨c, rest, rfl, stop⟩ := spelled.starts start
  exact ⟨stop, by simp⟩

section Opening

variable {d : Dialect} {f : Form} {args : List Sql} {e : Sql} {r s : List Char}

theorem Applied.dropWhile (applied : Applied f args e) (member : f ∈ d.forms)
    (scalars : ∀ arg ∈ args, Scalar d arg) (r : List Char) :
    ∃ rest, (e.chars ++ r).dropWhile isColumnChar = '(' :: rest := by
  have opened := Dialect.forms_opened member
  have start : startsWith (fun _ => true) f.segments = true := by
    generalize f.segments = p at opened
    match p with
    | .text _ :: _ => rfl
  have spelled := (applied.spelled member scalars).1
  obtain ⟨u, rest, -, same⟩ := spelled.dropWhile (Dialect.forms_spaced member) start
  obtain ⟨c, tail, rfl, bracket⟩ := rest.starts opened
  exact ⟨tail ++ r, by rw [same, List.cons_append, beq_iff_eq.1 bracket]⟩

namespace Scalar

theorem of_word {cs : List Char} (scalar : Scalar d e) (word : ∀ c ∈ cs, isColumnChar c = true)
    (nonempty : cs ≠ []) (stop : stops r = true) (stop' : stops s = true)
    (same : e.chars ++ r = cs ++ s) : e = .column (String.ofList cs) ∧ r = s := by
  have rest := congrArg (List.dropWhile isColumnChar) same
  rw [dropWhile_word word stop'] at rest
  cases scalar with
  | @column text column =>
    rw [Sql.chars_column] at rest same
    rw [dropWhile_word (all_of_isColumnText column) stop] at rest
    subst rest
    rw [← List.append_cancel_right same, String.ofList_toList]
    exact ⟨rfl, rfl⟩
  | param =>
    subst rest
    have length := congrArg List.length same
    simp only [Sql.chars_param, List.length_append, List.singleton_append, List.length_cons,
      List.dropWhile_cons_of_neg (show ¬isColumnChar '?' = true by decide)] at length
    exact absurd (List.length_eq_zero_iff.1 (by omega)) nonempty
  | form member applied scalars =>
    obtain ⟨inner, opened⟩ := applied.dropWhile member scalars r
    rw [← rest, opened] at stop'
    cases stop'

theorem of_column {text : String} (scalar : Scalar d e) (column : isColumnText text.toList = true)
    (stop : stops r = true) (stop' : stops s = true)
    (same : e.chars ++ r = (Sql.column text).chars ++ s) : e = .column text ∧ r = s := by
  have nonempty : text.toList ≠ [] := by
    intro empty
    rw [empty] at column
    cases column
  rw [Sql.chars_column] at same
  have found := scalar.of_word (all_of_isColumnText column) nonempty stop stop' same
  rwa [String.ofList_toList] at found

theorem of_param {value : Value} (scalar : Scalar d e)
    (same : e.chars ++ r = (Sql.param value).chars ++ s) : (∃ other, e = .param other) ∧ r = s := by
  rw [Sql.chars_param, List.singleton_append] at same
  cases scalar with
  | @column text column =>
    rw [Sql.chars_column] at same
    generalize text.toList = cs at same column
    cases cs with
    | nil => cases column
    | cons c cs =>
      cases same
      cases column
  | @param value => exact ⟨⟨value, rfl⟩, by simpa using same⟩
  | form member applied scalars =>
    obtain ⟨inner, opened⟩ := applied.dropWhile member scalars r
    rw [same] at opened
    cases opened

end Scalar

end Opening

/-- Values whose texts are shorter than the bound can be read back. -/
def Reads (d : Dialect) (bound : Nat) : Prop :=
  ∀ ⦃a b : Sql⦄ ⦃r s : List Char⦄, Scalar d a → Scalar d b → a.chars.length < bound →
    b.chars.length < bound → stops r = true → stops s = true → a.chars ++ r = b.chars ++ s →
    a.erase = b.erase ∧ r = s

/-- Some texts of the segments, no longer than the bound, agree as far as both go. -/
inductive Meets (d : Dialect) (bound : Nat) (p q : List Segment) : Prop
  | intro {vs ws : List Sql} {t u r s : List Char} (first : Spelled d p vs t)
      (second : Spelled d q ws u) (room : spaced p = true) (room' : spaced q = true)
      (short : t.length ≤ bound) (short' : u.length ≤ bound) (same : t ++ r = u ++ s)

section Meeting

variable {d : Dialect} {bound : Nat} {p q : List Segment}

theorem Reads.slots {v w : Sql} {vs ws : List Sql} {t u r s : List Char} (reads : Reads d bound)
    (first : Scalar d v) (second : Scalar d w) (rest : Spelled d p vs t) (rest' : Spelled d q ws u)
    (start : startsWith isStop p = true) (start' : startsWith isStop q = true)
    (short : (v.chars ++ t).length ≤ bound) (short' : (w.chars ++ u).length ≤ bound)
    (same : v.chars ++ t ++ r = w.chars ++ u ++ s) : v.erase = w.erase ∧ t ++ r = u ++ s := by
  obtain ⟨stop, long⟩ := rest.stops start r
  obtain ⟨stop', long'⟩ := rest'.stops start' s
  rw [List.length_append] at short short'
  rw [List.append_assoc, List.append_assoc] at same
  exact reads first second (by omega) (by omega) stop stop' same

namespace Meets

theorem symm (meets : Meets d bound p q) : Meets d bound q p := by
  obtain ⟨first, second, room, room', short, short', same⟩ := meets
  exact ⟨second, first, room', room, short', short, same.symm⟩

theorem texts {c c' : Char} (meets : Meets d bound (.text c :: p) (.text c' :: q)) :
    c = c' ∧ Meets d bound p q := by
  obtain ⟨first, second, room, room', short, short', same⟩ := meets
  cases first with | text first =>
  cases second with | text second =>
  simp only [spaced, Bool.and_eq_true] at room room'
  simp only [List.length_cons] at short short'
  simp only [List.cons_append, List.cons.injEq] at same
  exact ⟨same.1, first, second, room.2, room'.2, by omega, by omega, same.2⟩

theorem slots {digits digits' : List Char} (reads : Reads d bound)
    (meets : Meets d bound (.slot digits :: p) (.slot digits' :: q)) : Meets d bound p q := by
  obtain ⟨first, second, room, room', short, short', same⟩ := meets
  cases first with | slot scalar first =>
  cases second with | slot scalar' second =>
  simp only [spaced, Bool.and_eq_true] at room room'
  have rest := (reads.slots scalar scalar' first second room.1 room'.1 short short' same).2
  rw [List.length_append] at short short'
  exact ⟨first, second, room.2, room'.2, by omega, by omega, rest⟩

theorem reading {digits : List Char} {c : Char}
    (meets : Meets d bound (.slot digits :: p) (.text c :: q)) :
    ∃ pair ∈ readings d.forms p (.text c :: q), Meets d bound pair.1 pair.2 := by
  obtain ⟨first, second, room, room', short, short', same⟩ := meets
  cases first with | slot scalar first =>
  simp only [spaced, Bool.and_eq_true] at room
  cases scalar with
  | column column =>
    -- The column covers the whole word that the text begins with, and no more.
    obtain ⟨u, rest, shorter, drop⟩ := second.dropWhile room' rfl
    refine ⟨(p, (Segment.text c :: q).dropWhile isColumnSegment), List.mem_cons_self, ?_⟩
    have after := congrArg (List.dropWhile isColumnChar) same
    rw [Sql.chars_column, List.append_assoc, drop,
      dropWhile_word (all_of_isColumnText column) (first.stops room.1 _).1] at after
    rw [List.length_append] at short
    exact ⟨first, rest, room.2, spaced_dropWhile _ room', by omega, by omega, after⟩
  | param =>
    refine ⟨(.text '?' :: p, .text c :: q), by simp [readings], ?_⟩
    rw [Sql.chars_param] at short same
    have word : isColumnChar '?' = false := by decide
    exact ⟨.text first, second, by simpa [spaced, word] using room.2, room', short, short', same⟩
  | @form f args _ member applied scalars =>
    refine ⟨(f.segments ++ p, .text c :: q), ?_, ?_⟩
    · exact List.mem_cons_of_mem _ (List.mem_cons_of_mem _ (List.mem_map.2 ⟨f, member, rfl⟩))
    · exact ⟨(applied.spelled member scalars).1.append first, second,
        spaced_append (Dialect.forms_spaced member) room.2, room', short, short', same⟩

theorem clash (reads : Reads d bound) (depth : Nat) (meets : Meets d bound p q) :
    clash d.forms depth p q = true := by
  induction depth generalizing p q with
  | zero => rfl
  | succ depth ih =>
    match p, q with
    | [], _ => rfl
    | .text _ :: _, [] | .slot _ :: _, [] => rfl
    | .text c :: p, .text c' :: q =>
      obtain ⟨rfl, rest⟩ := meets.texts
      simp [Template.clash, ih rest]
    | .slot _ :: p, .slot _ :: q => exact ih (meets.slots reads)
    | .slot _ :: p, .text c :: q =>
      obtain ⟨pair, member, rest⟩ := meets.reading
      exact List.any_eq_true.2 ⟨pair, member, ih rest⟩
    | .text c :: p, .slot _ :: q =>
      obtain ⟨pair, member, rest⟩ := meets.symm.reading
      exact List.any_eq_true.2 ⟨pair, member, ih rest.symm⟩

end Meets

theorem Reads.lockstep {vs ws : List Sql} {t u r s : List Char} (reads : Reads d bound)
    (first : Spelled d p vs t) (second : Spelled d p ws u) (room : spaced p = true)
    (short : t.length ≤ bound) (short' : u.length ≤ bound) (same : t ++ r = u ++ s) :
    vs.map Sql.erase = ws.map Sql.erase ∧ r = s := by
  induction first generalizing ws u with
  | nil =>
    cases second
    exact ⟨rfl, same⟩
  | text _ ih =>
    cases second with | text second =>
    simp only [spaced, Bool.and_eq_true] at room
    simp only [List.length_cons] at short short'
    simp only [List.cons_append, List.cons.injEq, true_and] at same
    exact ih second room.2 (by omega) (by omega) same
  | slot scalar first ih =>
    cases second with | slot scalar' second =>
    simp only [spaced, Bool.and_eq_true] at room
    obtain ⟨held, rest⟩ :=
      reads.slots scalar scalar' first second room.1 room.1 short short' same
    rw [List.length_append] at short short'
    obtain ⟨others, after⟩ := ih second room.2 (by omega) (by omega) rest
    exact ⟨by rw [List.map_cons, List.map_cons, held, others], after⟩

theorem Reads.form_eq {f g : Form} {vs ws : List Sql} {t u r s : List Char} (reads : Reads d bound)
    (member : f ∈ d.forms) (member' : g ∈ d.forms) (first : Spelled d f.segments vs t)
    (second : Spelled d g.segments ws u) (short : t.length ≤ bound) (short' : u.length ≤ bound)
    (same : t ++ r = u ++ s) : f = g := by
  refine Decidable.byContradiction fun different => ?_
  have meets : Meets d bound f.segments g.segments :=
    ⟨first, second, Dialect.forms_spaced member, Dialect.forms_spaced member', short, short', same⟩
  have apart := Dialect.forms_apart member member' different
  rw [meets.clash reads] at apart
  cases apart

end Meeting

/-- By induction on a bound for the lengths of the texts: the values in the slots of a form are
shorter than what the form writes. -/
theorem reads (d : Dialect) (bound : Nat) : Reads d bound := by
  induction bound with
  | zero =>
    intro a b r s _ _ short
    omega
  | succ bound ih =>
    intro a b r s first second short short' stop stop' same
    cases second with
    | column column =>
      obtain ⟨rfl, rest⟩ := first.of_column column stop stop' same
      exact ⟨rfl, rest⟩
    | param =>
      obtain ⟨⟨_, rfl⟩, rest⟩ := first.of_param same
      exact ⟨rfl, rest⟩
    | @form g bs _ member' applied' scalars' =>
      have whole := Scalar.form member' applied' scalars'
      cases first with
      | column column =>
        obtain ⟨rfl, -⟩ := whole.of_column column stop' stop same.symm
        cases applied'
      | param =>
        obtain ⟨⟨_, rfl⟩, -⟩ := whole.of_param same.symm
        cases applied'
      | @form f as _ member applied scalars =>
        have spelled := (applied.spelled member scalars).1
        have spelled' := (applied'.spelled member' scalars').1
        obtain rfl := ih.form_eq member member' spelled spelled' (by omega) (by omega) same
        obtain ⟨picked, rest⟩ := ih.lockstep spelled spelled' (Dialect.forms_spaced member)
          (by omega) (by omega) same
        have args := map_eq_of_picks member applied.length applied'.length picked
        exact ⟨applied.erase_eq applied' args, rest⟩

/-- Values with the same text are the same but for the values of their placeholders, and they end
at the same place. -/
theorem Scalar.erase_eq {d : Dialect} {a b : Sql} {r s : List Char} (first : Scalar d a)
    (second : Scalar d b) (stop : stops r = true) (stop' : stops s = true)
    (same : a.chars ++ r = b.chars ++ s) : a.erase = b.erase ∧ r = s :=
  reads d (max a.chars.length b.chars.length + 1) first second (by omega) (by omega) stop stop' same

theorem Sql.erase_eq_column {e : Sql} {text : String} :
    e.erase = .column text ↔ e = .column text := by
  cases e <;> simp [erase]

theorem Sql.erase_eq_param {e : Sql} {value : Value} (same : e.erase = .param value) :
    ∃ other, e = .param other := by
  cases e with
  | param other => exact ⟨other, rfl⟩
  | _ => simp [erase] at same

theorem picks_erase (args : List Sql) (p : List Segment) :
    (picks args p).map Sql.erase = picks (args.map Sql.erase) p := by
  simp only [picks, List.map_map]
  apply List.map_congr_left
  intro i _
  simp only [Function.comp_apply, List.getD_eq_getElem?_getD, List.getElem?_map]
  cases args[i]? <;> rfl

theorem values_eq {d : Dialect} {vs ws : List Sql} {r s : List Value}
    (known : ∀ v ∈ vs, ∀ {w : Sql} {r s : List Value}, Scalar d w → v.erase = w.erase →
      v.args ++ r = w.args ++ s → v = w ∧ r = s)
    (scalars : ∀ w ∈ ws, Scalar d w) (same : vs.map Sql.erase = ws.map Sql.erase)
    (args : vs.flatMap Sql.args ++ r = ws.flatMap Sql.args ++ s) : vs = ws ∧ r = s := by
  induction vs generalizing ws with
  | nil =>
    obtain rfl := List.map_eq_nil_iff.1 same.symm
    exact ⟨rfl, args⟩
  | cons v vs ih =>
    obtain ⟨w, ws, rfl, head, tail⟩ := List.map_eq_cons_iff.1 same.symm
    simp only [List.flatMap_cons, List.append_assoc] at args
    obtain ⟨rfl, rest⟩ := known v List.mem_cons_self (scalars w List.mem_cons_self) head.symm args
    obtain ⟨rfl, after⟩ := ih (fun v member => known v (List.mem_cons_of_mem _ member))
      (fun w member => scalars w (List.mem_cons_of_mem _ member)) tail.symm rest
    exact ⟨rfl, after⟩

theorem Scalar.eq_of_args {d : Dialect} {a b : Sql} {r s : List Value} (first : Scalar d a)
    (second : Scalar d b) (same : a.erase = b.erase) (args : a.args ++ r = b.args ++ s) :
    a = b ∧ r = s := by
  induction first generalizing b r s with
  | column =>
    obtain rfl := Sql.erase_eq_column.1 same.symm
    exact ⟨rfl, args⟩
  | param =>
    obtain ⟨_, rfl⟩ := Sql.erase_eq_param same.symm
    simpa using args
  | form member applied scalars ih =>
    cases second with
    | column =>
      obtain rfl := Sql.erase_eq_column.1 same
      cases applied
    | param =>
      obtain ⟨_, rfl⟩ := Sql.erase_eq_param same
      cases applied
    | form member' applied' scalars' =>
      obtain ⟨rfl, inner⟩ := applied.of_erase_eq applied' same
      rw [(applied.spelled member scalars).2, (applied'.spelled member' scalars').2] at args
      -- Every argument has a slot, so the values in the slots give back the arguments.
      obtain ⟨picked, rest⟩ := values_eq
        (fun v inside => ih v (mem_of_mem_picks member applied.length inside))
        (fun w inside => scalars' w (mem_of_mem_picks member' applied'.length inside))
        (by rw [picks_erase, picks_erase, inner]) args
      have equal :=
        map_eq_of_picks member applied.length applied'.length (congrArg (List.map id) picked)
      rw [List.map_id, List.map_id] at equal
      subst equal
      exact ⟨applied.unique applied', rest⟩

end ClauseSql
