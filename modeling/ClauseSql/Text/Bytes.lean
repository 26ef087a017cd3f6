/-! Byte positions in a text. A position counts the bytes of the UTF-8 form, so a position may
fall inside a character; taking, dropping and slicing at such a position have no result. -/
namespace ClauseSql.Text

def byteLength : List Char → Nat
  | [] => 0
  | c :: cs => c.utf8Size + byteLength cs

@[simp] theorem byteLength_nil : byteLength [] = 0 := rfl

@[simp] theorem byteLength_cons (c : Char) (cs : List Char) :
    byteLength (c :: cs) = c.utf8Size + byteLength cs := rfl

@[simp] theorem byteLength_append (as bs : List Char) :
    byteLength (as ++ bs) = byteLength as + byteLength bs := by
  induction as with
  | nil => simp
  | cons c cs ih => simp [ih, Nat.add_assoc]

def dropBytes? : List Char → Nat → Option (List Char)
  | cs, 0 => some cs
  | [], _ + 1 => none
  | c :: cs, n + 1 => if c.utf8Size ≤ n + 1 then dropBytes? cs (n + 1 - c.utf8Size) else none

def takeBytes? : List Char → Nat → Option (List Char)
  | _, 0 => some []
  | [], _ + 1 => none
  | c :: cs, n + 1 =>
    if c.utf8Size ≤ n + 1 then (takeBytes? cs (n + 1 - c.utf8Size)).map (c :: ·) else none

/-- The text from byte `start` up to byte `stop`. -/
def slice? (cs : List Char) (start stop : Nat) : Option (List Char) :=
  if start ≤ stop then (dropBytes? cs start).bind (takeBytes? · (stop - start)) else none

theorem dropBytes?_append (as bs : List Char) : dropBytes? (as ++ bs) (byteLength as) = some bs := by
  induction as with
  | nil => cases bs <;> rfl
  | cons c cs ih =>
    have positive := c.utf8Size_pos
    obtain ⟨n, hn⟩ := Nat.exists_eq_add_one.mpr (Nat.add_pos_left positive (byteLength cs))
    simp only [List.cons_append, byteLength_cons, hn, dropBytes?]
    rw [if_pos (by omega), ← hn, Nat.add_sub_cancel_left]
    exact ih

theorem takeBytes?_append (as bs : List Char) : takeBytes? (as ++ bs) (byteLength as) = some as := by
  induction as with
  | nil => cases bs <;> rfl
  | cons c cs ih =>
    have positive := c.utf8Size_pos
    obtain ⟨n, hn⟩ := Nat.exists_eq_add_one.mpr (Nat.add_pos_left positive (byteLength cs))
    simp only [List.cons_append, byteLength_cons, hn, takeBytes?]
    rw [if_pos (by omega), ← hn, Nat.add_sub_cancel_left, ih]
    rfl

theorem slice?_append (as bs cs : List Char) :
    slice? (as ++ (bs ++ cs)) (byteLength as) (byteLength as + byteLength bs) = some bs := by
  simp [slice?, dropBytes?_append, takeBytes?_append]

def bytes (cs : List Char) : List UInt8 := cs.flatMap String.utf8EncodeChar

def byteAt? (cs : List Char) (n : Nat) : Option UInt8 := (bytes cs)[n]?

end ClauseSql.Text
