/-! Computations that may stop with an error: taken apart after they have succeeded, and two of them
side by side. -/
namespace ClauseSql.Outcome

variable {ε α β : Type}

theorem map_pure (f : α → β) (a : α) : (pure a : Except ε α).map f = .ok (f a) := rfl

theorem ok_bind (f : α → Except ε β) (a : α) : (.ok a : Except ε α) >>= f = f a := rfl

@[simp] theorem pure_eq_ok {a b : α} : (pure a : Except ε α) = .ok b ↔ a = b := by
  constructor
  · exact Except.ok.inj
  · exact congrArg Except.ok

@[simp] theorem map_eq_ok {f : α → β} {x : Except ε α} {b : β} :
    x.map f = .ok b ↔ ∃ a, x = .ok a ∧ f a = b := by
  constructor
  · intro done
    match x, done with
    | .ok a, done => exact ⟨a, rfl, Except.ok.inj done⟩
  · rintro ⟨a, rfl, rfl⟩
    rfl

theorem map_eq_error {f : α → β} {x : Except ε α} {e : ε} : x.map f = .error e ↔ x = .error e := by
  cases x <;> simp [Except.map]

@[simp] theorem fmap_eq_ok {f : α → β} {x : Except ε α} {b : β} :
    f <$> x = .ok b ↔ ∃ a, x = .ok a ∧ f a = b := map_eq_ok

@[simp] theorem bind_eq_ok {f : α → Except ε β} {x : Except ε α} {b : β} :
    x >>= f = .ok b ↔ ∃ a, x = .ok a ∧ f a = .ok b := by
  constructor
  · intro done
    match x, done with
    | .ok a, done => exact ⟨a, rfl, done⟩
  · rintro ⟨a, rfl, done⟩
    exact done

@[simp] theorem mapError_eq_ok {δ : Type} {f : ε → δ} {x : Except ε α} {a : α} :
    x.mapError f = .ok a ↔ x = .ok a := by
  cases x with
  | error _ => constructor <;> intro done <;> cases done
  | ok _ => constructor <;> intro done <;> cases done <;> rfl

/-- What a view of a result shows is decided by what a view of the intermediate result shows, if
that is so for the second step. -/
theorem map_bind_congr {ι κ : Type} {view : α → ι} {outer : β → κ} {x y : Except ε α}
    {f g : α → Except ε β} (same : x.map view = y.map view)
    (next : ∀ a b, view a = view b → (f a).map outer = (g b).map outer) :
    (x >>= f).map outer = (y >>= g).map outer := by
  match x, y, same with
  | .error _, .error _, same => exact congrArg Except.error (Except.error.inj same)
  | .ok a, .ok b, same => exact next a b (Except.ok.inj same)

theorem map_bind_same {κ : Type} {outer : β → κ} {x : Except ε α} {f g : α → Except ε β}
    (next : ∀ a, (f a).map outer = (g a).map outer) :
    (x >>= f).map outer = (x >>= g).map outer := by
  cases x with
  | error => rfl
  | ok a => exact next a

/-- Both computations succeed, with related results, or both stop. -/
inductive Agree {δ : Type} (related : α → β → Prop) : Except ε α → Except δ β → Prop
  | ok {a : α} {b : β} (same : related a b) : Agree related (.ok a) (.ok b)
  | error {e : ε} {d : δ} : Agree related (.error e) (.error d)

/-- Both computations succeed, with related results, or both stop, with related errors. -/
inductive InStep {δ : Type} (stops : ε → δ → Prop) (related : α → β → Prop) :
    Except ε α → Except δ β → Prop
  | ok {a : α} {b : β} (same : related a b) : InStep stops related (.ok a) (.ok b)
  | error {e : ε} {d : δ} (same : stops e d) : InStep stops related (.error e) (.error d)

namespace InStep

variable {δ : Type} {stops : ε → δ → Prop} {related : α → β → Prop} {x : Except ε α} {y : Except δ β}

theorem agree (both : InStep stops related x y) : Agree related x y := by
  cases both with
  | ok same => exact .ok same
  | error => exact .error

theorem bind {ι κ : Type} {outer : ι → κ → Prop} {f : α → Except ε ι} {g : β → Except δ κ}
    (both : InStep stops related x y)
    (next : ∀ a b, related a b → InStep stops outer (f a) (g b)) :
    InStep stops outer (x >>= f) (y >>= g) := by
  cases both with
  | ok same => exact next _ _ same
  | error same => exact .error same

theorem map {ι κ : Type} {outer : ι → κ → Prop} {f : α → ι} {g : β → κ}
    (both : InStep stops related x y) (next : ∀ a b, related a b → outer (f a) (g b)) :
    InStep stops outer (x.map f) (y.map g) := by
  cases both with
  | ok same => exact .ok (next _ _ same)
  | error same => exact .error same

theorem mapError {ι κ : Type} {outer : ι → κ → Prop} {f : ε → ι} {g : δ → κ}
    (both : InStep stops related x y) (next : ∀ e d, stops e d → outer (f e) (g d)) :
    InStep outer related (x.mapError f) (y.mapError g) := by
  cases both with
  | ok same => exact .ok same
  | error same => exact .error (next _ _ same)

end InStep

end ClauseSql.Outcome
