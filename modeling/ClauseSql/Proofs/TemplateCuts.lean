import ClauseSql.Proofs.NumberLiterals
import ClauseSql.Proofs.Refusals
import ClauseSql.Proofs.Safety
import ClauseSql.Proofs.Spelling

/-! Filling templates. The slots of a template are the leftmost ones that do not overlap, so there is one
way to cut it into slots and pieces of text between them. Filling it is to write the pieces as they are
and, in the place of each slot, what its argument alone would write. What arguments write is not looked
through for slots, and what a writer holds already stays as it is. -/
namespace ClauseSql

namespace Template

def BeginsSlot (cs : List Char) : Prop :=
  ∃ digits rest, digits ≠ [] ∧ (∀ d ∈ digits, d.isDigit = true) ∧
    cs = Segment.written (.slot digits) ++ rest

def Plain (piece rest : List Char) : Prop :=
  ∀ back, back <:+ piece → back ≠ [] → ¬ BeginsSlot (back ++ rest)

structure Slot where
  before : List Char
  digits : List Char

def Slot.index (s : Slot) : Nat := Numeral.denoted s.digits

/-- A template in pieces: its slots, and the piece behind the last of them. -/
structure Cut where
  slots : List Slot
  last : List Char

/-- The slots of the cut are the leftmost ones in the text. -/
inductive Cuts : List Char → Cut → Prop
  | last {piece : List Char} : Plain piece [] → Cuts piece ⟨[], piece⟩
  | slot {before digits rest : List Char} {cut : Cut} :
      digits ≠ [] → (∀ d ∈ digits, d.isDigit = true) →
      Plain before (Segment.written (.slot digits) ++ rest) → Cuts rest cut →
      Cuts (before ++ (Segment.written (.slot digits) ++ rest)) ⟨⟨before, digits⟩ :: cut.slots, cut.last⟩

namespace Cut

def text (write : Nat → String) (cut : Cut) : String :=
  String.join (cut.slots.map fun s => String.ofList s.before ++ write s.index) ++ String.ofList cut.last

def args (list : Nat → List Value) (cut : Cut) : List Value := cut.slots.flatMap fun s => list s.index

def push (c : Char) : Cut → Cut
  | ⟨[], last⟩ => ⟨[], c :: last⟩
  | ⟨s :: slots, last⟩ => ⟨⟨c :: s.before, s.digits⟩ :: slots, last⟩

theorem push_text (c : Char) (cut : Cut) (write : Nat → String) :
    (cut.push c).text write = String.singleton c ++ cut.text write := by
  obtain ⟨_ | ⟨s, slots⟩, last⟩ := cut
  · simp [push, text]
  · simp [push, text, ← String.toList_inj, Slot.index]

theorem push_args (c : Char) (cut : Cut) (list : Nat → List Value) :
    (cut.push c).args list = cut.args list := by
  obtain ⟨_ | ⟨s, slots⟩, last⟩ := cut <;> rfl

def ofSegments : List Segment → Cut
  | [] => ⟨[], []⟩
  | .text c :: rest => (ofSegments rest).push c
  | .slot digits :: rest => ⟨⟨[], digits⟩ :: (ofSegments rest).slots, (ofSegments rest).last⟩

theorem forall_push (c : Char) (cut : Cut) (test : List Char → Prop) :
    (∀ s ∈ (cut.push c).slots, test s.digits) ↔ ∀ s ∈ cut.slots, test s.digits := by
  obtain ⟨_ | ⟨s, slots⟩, last⟩ := cut <;> simp [push]

end Cut

theorem plain_nil (rest : List Char) : Plain [] rest :=
  fun _ suffix filled => absurd (List.suffix_nil.1 suffix) filled

theorem plain_cons {c : Char} {piece rest : List Char} :
    Plain (c :: piece) rest ↔ ¬ BeginsSlot (c :: (piece ++ rest)) ∧ Plain piece rest := by
  simp only [Plain, List.suffix_cons_iff, or_imp, forall_and, forall_eq]
  simp

theorem slot?_digits {cs digits : List Char} (read : slot? cs = some digits) :
    digits ≠ [] ∧ digits = cs.takeWhile Text.isDecimalDigit := by
  unfold slot? at read
  dsimp only at read
  split at read
  · next d more _ _ taken _ =>
    split at read
    · cases read
      exact ⟨by simp [taken], rfl⟩
    · cases read
  · cases read

theorem slot?_eq_some_iff {cs digits : List Char} (ascii : ∀ c ∈ cs, c.toNat < 128) :
    slot? cs = some digits ↔
      digits ≠ [] ∧ (∀ d ∈ digits, d.isDigit = true) ∧ ∃ rest, cs = digits ++ '\x7d' :: rest := by
  constructor
  · intro read
    obtain ⟨filled, taken⟩ := slot?_digits read
    refine ⟨filled, fun d member => ?_, _, slot?_eq_some read⟩
    rw [taken] at member
    rw [← Spelling.isDecimalDigit_ascii (ascii d (List.takeWhile_subset _ member))]
    exact List.mem_takeWhile_imp member
  · rintro ⟨filled, digit, rest, rfl⟩
    have all : ∀ d ∈ digits, Text.isDecimalDigit d = true :=
      fun d member => Text.isDecimalDigit_of_isDigit d (digit d member)
    have taken : (digits ++ '\x7d' :: rest).takeWhile Text.isDecimalDigit = digits := by
      rw [List.takeWhile_append_of_pos all]
      simp [show Text.isDecimalDigit '\x7d' = false by decide]
    obtain ⟨d, more, rfl⟩ := List.exists_cons_of_ne_nil filled
    rw [slot?, taken, List.drop_left]
    rfl

variable {cs : List Char}

theorem segments_text {c : Char} (ascii : ∀ d ∈ c :: cs, d.toNat < 128) (plain : ¬ BeginsSlot (c :: cs)) :
    segments (c :: cs) = .text c :: segments cs := by
  have none : (if c = '\x7b' then slot? cs else none) = none := by
    split
    · next opening =>
      rw [Option.eq_none_iff_forall_ne_some]
      intro digits read
      obtain ⟨filled, digit, rest, same⟩ :=
        (slot?_eq_some_iff (List.forall_mem_cons.1 ascii).2).1 read
      exact plain ⟨digits, rest, filled, digit, by simp [Segment.written, opening, same]⟩
    · rfl
  rw [segments, none]

theorem segments_slot {digits rest : List Char}
    (ascii : ∀ c ∈ Segment.written (.slot digits) ++ rest, c.toNat < 128) (filled : digits ≠ [])
    (digit : ∀ d ∈ digits, d.isDigit = true) :
    segments (Segment.written (.slot digits) ++ rest) = .slot digits :: segments rest := by
  have whole : Segment.written (.slot digits) ++ rest = '\x7b' :: (digits ++ '\x7d' :: rest) := by
    simp [Segment.written]
  rw [whole] at ascii ⊢
  have read := (slot?_eq_some_iff (List.forall_mem_cons.1 ascii).2).2 ⟨filled, digit, rest, rfl⟩
  rw [segments, if_pos rfl, read]
  simp

theorem Cuts.eq {cut : Cut} (cuts : Cuts cs cut) (ascii : ∀ c ∈ cs, c.toNat < 128) :
    cut = .ofSegments (segments cs) := by
  induction cuts with
  | @last piece plain =>
    induction piece with
    | nil => rw [segments]; rfl
    | cons c piece ih =>
      rw [plain_cons, List.append_nil] at plain
      rw [segments_text ascii plain.1, Cut.ofSegments, ← ih plain.2 (List.forall_mem_cons.1 ascii).2]
      rfl
  | @slot before digits rest cut filled digit plain _ ih =>
    induction before with
    | nil =>
      rw [List.nil_append] at ascii ⊢
      rw [segments_slot ascii filled digit, Cut.ofSegments, ← ih (List.forall_mem_append.1 ascii).2]
    | cons c before jh =>
      rw [plain_cons] at plain
      rw [List.cons_append] at ascii ⊢
      rw [segments_text ascii plain.1, Cut.ofSegments,
        ← jh plain.2 (List.forall_mem_cons.1 ascii).2]
      rfl

theorem Cuts.push {cut : Cut} (cuts : Cuts cs cut) {c : Char} (plain : ¬ BeginsSlot (c :: cs)) :
    Cuts (c :: cs) (cut.push c) := by
  cases cuts with
  | last inner => exact .last (plain_cons.2 ⟨by simpa using plain, inner⟩)
  | slot filled digit inner more => exact .slot filled digit (plain_cons.2 ⟨plain, inner⟩) more

theorem cuts_segments (ascii : ∀ c ∈ cs, c.toNat < 128) : Cuts cs (.ofSegments (segments cs)) := by
  induction size : cs.length using Nat.strong_induction_on generalizing cs with | _ n ih => ?_
  cases cs with
  | nil =>
    rw [segments]
    exact .last (plain_nil [])
  | cons c cs =>
    by_cases begins : BeginsSlot (c :: cs)
    · obtain ⟨digits, rest, filled, digit, whole⟩ := begins
      rw [whole] at ascii ⊢
      have shorter : rest.length < n := by
        rw [← size, whole, List.length_append]
        simp [Segment.written]
      rw [segments_slot ascii filled digit]
      exact .slot filled digit (plain_nil _) (ih _ shorter (List.forall_mem_append.1 ascii).2 rfl)
    · rw [segments_text ascii begins]
      have shorter : cs.length < n := by simp [← size]
      exact (ih _ shorter (List.forall_mem_cons.1 ascii).2 rfl).push begins

def Cut.Numbered (cut : Cut) : Prop := ∀ s ∈ cut.slots, index? s.digits = some s.index

theorem Cut.Numbered.of_push {c : Char} {cut : Cut} (numbered : (cut.push c).Numbered) : cut.Numbered :=
  (cut.forall_push c fun digits => index? digits = some (Numeral.denoted digits)).1 numbered

theorem Cuts.numbered {cut : Cut} (cuts : Cuts cs cut) : cut.Numbered := by
  induction cuts with
  | last => exact List.forall_mem_nil _
  | @slot before digits rest cut filled digit _ _ ih =>
    refine List.forall_mem_cons.2 ⟨?_, ih⟩
    rw [index?, if_pos (List.all_eq_true.2 digit), Slot.index, Numeral.ofDigits_eq_denoted]

section Filling

variable {args : List Printed} {p : List Segment} (numbered : (Cut.ofSegments p).Numbered)
include numbered

theorem fill_complete_iff :
    (fill args p).complete = true ↔
      ∀ s ∈ (Cut.ofSegments p).slots, ∃ arg, args[s.index]? = some arg ∧ arg.complete = true := by
  induction p with
  | nil => simp [fill, Cut.ofSegments, Printed.empty]
  | cons segment p ih =>
    cases segment with
    | text c =>
      rw [fill, Printed.complete_append, Printed.complete_ofText, Bool.true_and, ih numbered.of_push]
      exact (Cut.forall_push c (.ofSegments p) fun digits =>
        ∃ arg, args[Numeral.denoted digits]? = some arg ∧ arg.complete = true).symm
    | slot digits =>
      rw [Cut.ofSegments, Cut.Numbered, List.forall_mem_cons] at numbered
      rw [Cut.ofSegments, List.forall_mem_cons]
      rw [fill, numbered.1, Option.bind_some, ← ih numbered.2]
      cases args[Slot.index ⟨[], digits⟩]? with
      | none => simp [Printed.failed]
      | some arg => simp

theorem fill_writes (complete : (fill args p).complete = true) :
    (fill args p).Writes
      ((Cut.ofSegments p).text fun i => (args[i]?.map Printed.text).getD "").toList
      ((Cut.ofSegments p).args fun i => (args[i]?.map Printed.args).getD []) := by
  induction p with
  | nil => exact Printed.writes_empty
  | cons segment p ih =>
    cases segment with
    | text c =>
      rw [fill, Printed.complete_append, Printed.complete_ofText, Bool.true_and] at complete
      rw [Cut.ofSegments, Cut.push_text, Cut.push_args, String.toList_append, fill]
      exact (Printed.writes_text _).append (ih numbered.of_push complete)
    | slot digits =>
      rw [Cut.ofSegments, Cut.Numbered, List.forall_mem_cons] at numbered
      rw [fill, numbered.1, Option.bind_some] at complete ⊢
      cases found : args[Slot.index ⟨[], digits⟩]? with
      | none => simp [found, Printed.failed] at complete
      | some arg =>
        simp only [found, Printed.complete_append, Bool.and_eq_true] at complete ⊢
        have first : arg.Writes arg.text.toList arg.args := ⟨complete.1, rfl, rfl⟩
        have both := first.append (ih numbered.2 complete.2)
        simpa [Cut.ofSegments, Cut.text, Cut.args, found] using both

end Filling

end Template

namespace Writer

def alone (es : List Sql) (i : Nat) : Writer :=
  (es[i]?.map fun e => (({} : Writer).render e).2).getD {}

theorem render_fst {w : Writer} {e : Sql} : (w.render e).1 = .ok () ↔ e.print.complete = true := by
  cases complete : e.print.complete <;> simp [render, complete]

theorem alone_eq (es : List Sql) (i : Nat) :
    alone es i = ⟨((Sql.printAll es)[i]?.map Printed.text).getD "",
      ((Sql.printAll es)[i]?.map Printed.args).getD []⟩ := by
  rw [alone, Sql.printAll_eq, List.getElem?_map]
  cases es[i]? with
  | none => rfl
  | some e => simp [render, write]

end Writer

/-- A template can be cut at its slots in one way. It is written if each slot has the number of an
argument that can be written; then the pieces of text stand there unchanged, and in the place of each slot
what its argument writes alone. Whatever comes of it, this is added to what has been written before. -/
theorem templates_are_filled_in_one_pass (template : String)
    (ascii : ∀ c ∈ template.toList, c.toNat < 128) (args : List Sql) (w : Writer) :
    (∃! cut, Template.Cuts template.toList cut) ∧
    ∀ cut, Template.Cuts template.toList cut →
      let written := w.render (.template template args)
      (written.1 = .ok () ↔ (∀ s ∈ cut.slots, s.index < args.length) ∧
        ∀ s ∈ cut.slots, ∀ arg, args[s.index]? = some arg → (({} : Writer).render arg).1 = .ok ()) ∧
      (written.1 = .ok () →
        written.2.sql = w.sql ++ cut.text (fun i => (Writer.alone args i).sql) ∧
        written.2.args = w.args ++ cut.args (fun i => (Writer.alone args i).args)) ∧
      ∃ text values, written.2.sql = w.sql ++ text ∧ written.2.args = w.args ++ values := by
  have unique : ∃! cut, Template.Cuts template.toList cut :=
    ⟨_, Template.cuts_segments ascii, fun _ cuts => cuts.eq ascii⟩
  refine ⟨unique, ?_⟩
  intro cut cuts written
  have numbered := cuts.numbered
  obtain rfl := cuts.eq ascii
  refine ⟨?_, ?_, _, _, rfl, rfl⟩
  · rw [Writer.render_fst, Sql.print, Template.fill_complete_iff numbered,
      ← forall₂_and]
    refine forall₂_congr fun s member => ?_
    rw [Sql.printAll_eq, List.getElem?_map]
    cases found : args[s.index]? with
    | none => simpa using found
    | some arg =>
      have below : s.index < args.length := (List.getElem?_eq_some_iff.1 found).1
      simp [below, Writer.render_fst]
  · intro done
    have writes := Template.fill_writes numbered (Writer.render_fst.1 done)
    simp only [Writer.alone_eq]
    exact ⟨congrArg (w.sql ++ ·) (String.toList_inj.1 writes.chars), congrArg (w.args ++ ·) writes.args⟩

/-- Braces around a slot, a slot used twice, slots out of order, and an argument that looks like a slot. -/
theorem templates_are_filled_in_one_pass_braces :
    let template := "\x7b\x7b1\x7d\x7bx\x7d\x7b0\x7d-\x7b1\x7d\x7b"
    let args : List Sql := [.column "\x7b1\x7d", .param (.text "v")]
    let w : Writer := ⟨"SELECT ", [.null]⟩
    (∀ c ∈ template.toList, c.toNat < 128) ∧
    (∃ cut, Template.Cuts template.toList cut ∧ cut.slots.map Template.Slot.index = [1, 0, 1]) ∧
    (w.render (.template template args)).1 = .ok () ∧
    (w.render (.template template args)).2.sql = "SELECT \x7b?\x7bx\x7d\x7b1\x7d-?\x7b" ∧
    (w.render (.template template args)).2.args = [.null, .text "v", .text "v"] := by
  intro template args w
  have all : template.toList.all (fun c => decide (c.toNat < 128)) = true := by decide +kernel
  have ascii : ∀ c ∈ template.toList, c.toNat < 128 := by simpa using all
  obtain ⟨⟨cut, cuts, -⟩, filled⟩ := templates_are_filled_in_one_pass template ascii args w
  have numbers : cut.slots.map Template.Slot.index = [1, 0, 1] := by
    rw [cuts.eq ascii]
    decide +kernel
  have below : ∀ s ∈ cut.slots, s.index = 0 ∨ s.index = 1 := by
    intro s member
    have listed := List.mem_map_of_mem (f := Template.Slot.index) member
    rw [numbers] at listed
    grind
  obtain ⟨written, values, -⟩ := filled cut cuts
  have done : (w.render (.template template args)).1 = .ok () := by
    refine written.2 ⟨fun s member => ?_, fun s member arg found => ?_⟩
    · rcases below s member with zero | one
      · simp [zero, args]
      · simp [one, args]
    · rcases below s member with zero | one
      · rw [zero] at found
        cases found
        rfl
      · rw [one] at found
        cases found
        rfl
  obtain ⟨sql, bound⟩ := values done
  refine ⟨ascii, ⟨cut, cuts, numbers⟩, done, sql.trans ?_, bound.trans ?_⟩
  · rw [cuts.eq ascii]
    decide +kernel
  · rw [cuts.eq ascii]
    decide +kernel

end ClauseSql
