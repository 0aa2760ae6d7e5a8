import Mathlib.Data.List.Basic

/-!
# FormulaMarkup — texts as bytes

A text is kept as the bytes of its characters, one to four for each of them.  A place in it is the
number of bytes in front, and it is a place between two characters only if these bytes are those of
whole characters.

* **`utf8`** — the bytes of a text.
* **`splitAtByte?`** — a text divided at a place; nothing if the place is inside a character.
* **`splitAtByte?_eq_some_iff`** — the places between characters are those behind a front part.
* **`textBetween?`**, **`textFrom?`** — the text between two places, and that behind one.
* **`utf8EncodeChar_of_mem_ascii`** — an ASCII byte is a character by itself.
-/

namespace FormulaMarkup.Text

/-- The bytes of a text. -/
def utf8 (t : List Char) : List UInt8 := t.flatMap String.utf8EncodeChar

/-- The number of bytes of a text. -/
def byteLength (t : List Char) : Nat := (utf8 t).length

/-- The characters before and behind a place that is given by the number of bytes in front of it.
There is nothing if the place is inside a character or behind the end, which is where slicing a
string of bytes would fail. -/
def splitAtByte? : Nat → List Char → Option (List Char × List Char)
  | 0, t => some ([], t)
  | _ + 1, [] => none
  | n + 1, c :: t =>
    if c.utf8Size ≤ n + 1 then
      (splitAtByte? (n + 1 - c.utf8Size) t).map fun parts => (c :: parts.1, parts.2)
    else none

/-- The text between two places, or nothing if one of them is inside a character, behind the end, or
if they are in the wrong order. -/
def textBetween? (t : List Char) (start stop : Nat) : Option (List Char) := do
  let (front, _) ← splitAtByte? stop t
  let (_, middle) ← splitAtByte? start front
  return middle

/-- The text behind a place. -/
def textFrom? (t : List Char) (start : Nat) : Option (List Char) := do
  let (_, behind) ← splitAtByte? start t
  return behind

/-! ## Lengths

A place is a number of bytes, so places are added and compared as the lengths of the texts in front
of them. -/

@[simp] theorem byteLength_nil : byteLength [] = 0 := rfl

/-- A text has the bytes of its first character and those of the others. -/
@[simp] theorem byteLength_cons (c : Char) (t : List Char) :
    byteLength (c :: t) = c.utf8Size + byteLength t := by
  simp [byteLength, utf8]

/-- A text behind another one begins at the `byteLength` of the first one. -/
@[simp] theorem byteLength_append (s t : List Char) :
    byteLength (s ++ t) = byteLength s + byteLength t := by
  simp [byteLength, utf8]

/-- No character is without bytes, so only the empty text has the length zero. -/
theorem byteLength_eq_zero_iff {t : List Char} : byteLength t = 0 ↔ t = [] := by
  cases t with
  | nil => simp
  | cons c t =>
    have := c.utf8Size_pos
    simp only [byteLength_cons, reduceCtorEq, iff_false]
    omega

/-! ## Places

The numbers at which a text can be divided are those of its front parts.  Whoever keeps a place as
such a number knows that the next slice does not fail. -/

/-- `splitAtByte?` divides a text behind a front part of it.  Induction on this part, one character
at a time. -/
theorem splitAtByte?_append (x y : List Char) :
    splitAtByte? (byteLength x) (x ++ y) = some (x, y) := by
  induction x with
  | nil => rw [byteLength_nil, splitAtByte?, List.nil_append]
  | cons c x ih =>
    obtain ⟨n, hn⟩ : ∃ n, byteLength (c :: x) = n + 1 :=
      Nat.exists_eq_succ_of_ne_zero fun h => by simpa using byteLength_eq_zero_iff.mp h
    -- the first character lies in front of the place
    have hle : c.utf8Size ≤ n + 1 := by
      rw [← hn, byteLength_cons]
      exact Nat.le_add_right _ _
    have hrest : n + 1 - c.utf8Size = byteLength x := by
      rw [← hn, byteLength_cons, Nat.add_sub_cancel_left]
    rw [hn, List.cons_append, splitAtByte?, if_pos hle, hrest, ih]
    rfl

/-- **A place lies between two characters if and only if it is the end of a front part.**
`splitAtByte?` then divides the text there and nothing of it is lost. -/
theorem splitAtByte?_eq_some_iff {n : Nat} {t x y : List Char} :
    splitAtByte? n t = some (x, y) ↔ t = x ++ y ∧ byteLength x = n := by
  constructor
  · intro h
    fun_induction splitAtByte? n t generalizing x with
    | case1 t =>
      obtain ⟨rfl, rfl⟩ := Prod.mk.inj (Option.some.inj h)
      exact ⟨rfl, rfl⟩
    | case2 => cases h
    | case3 n c t hle ih =>
      -- the place is behind the first character, and the others are divided
      obtain ⟨⟨x', y'⟩, hsplit, hparts⟩ := Option.map_eq_some_iff.mp h
      obtain ⟨rfl, rfl⟩ := Prod.mk.inj hparts
      obtain ⟨rfl, hlength⟩ := ih hsplit
      refine ⟨rfl, ?_⟩
      rw [byteLength_cons, hlength]
      omega
    | case4 => cases h
  · rintro ⟨rfl, rfl⟩
    exact splitAtByte?_append x y

/-- The text between two places of which the second one is behind the first: with `x` in front of
the first place and `z` behind the second one, it is `y`. -/
theorem textBetween?_append (x y z : List Char) :
    textBetween? (x ++ y ++ z) (byteLength x) (byteLength (x ++ y)) = some y := by
  rw [textBetween?, splitAtByte?_append]
  show (splitAtByte? (byteLength x) (x ++ y)).bind _ = _
  rw [splitAtByte?_append]
  rfl

theorem textFrom?_append (x y : List Char) : textFrom? (x ++ y) (byteLength x) = some y := by
  simp [textFrom?, splitAtByte?_append]

/-- `textBetween?` finds no text between two places in the wrong order: the first one is behind the
end of what stands in front of the second one. -/
theorem textBetween?_of_lt (t : List Char) {start stop : Nat} (h : stop < start) :
    textBetween? t start stop = none := by
  cases hstop : splitAtByte? stop t with
  | none => simp [textBetween?, hstop]
  | some parts =>
    obtain ⟨front, behind⟩ := parts
    obtain ⟨-, hfront⟩ := splitAtByte?_eq_some_iff.mp hstop
    cases hstart : splitAtByte? start front with
    | none => simp [textBetween?, hstop, hstart]
    | some parts =>
      obtain ⟨x, y⟩ := parts
      obtain ⟨rfl, hlength⟩ := splitAtByte?_eq_some_iff.mp hstart
      -- the second part of a text is not longer than the text
      rw [byteLength_append] at hfront
      omega

/-! ## ASCII

A search among bytes finds characters only if the byte that is looked for is a character wherever it
stands.  For ASCII bytes it is, since the bytes of all longer characters are 128 or more. -/

/-- **An ASCII byte is never part of a longer character.** One case for each number of bytes that a
character can have; all but the first have the highest bit set in each of them. -/
theorem utf8EncodeChar_of_mem_ascii {c : Char} {b : UInt8} (h : b ∈ String.utf8EncodeChar c)
    (hb : b.toNat < 128) : c.toNat < 128 := by
  -- all bytes of a longer character have their highest bit set
  have high : ∀ x y : UInt8, 128 ≤ y.toNat → 128 ≤ (x ||| y).toNat := fun x y hy => by
    rw [UInt8.toNat_or]
    exact Nat.le_trans hy Nat.right_le_or
  rcases c.utf8Size_eq with hsize | hsize | hsize | hsize
  · have hle := Char.utf8Size_eq_one_iff.mp hsize
    exact Nat.lt_succ_of_le (UInt32.le_iff_toNat_le.mp hle)
  · rw [String.utf8EncodeChar_eq_cons_cons hsize] at h
    simp only [List.mem_cons, List.not_mem_nil, or_false] at h
    rcases h with rfl | rfl <;> exact absurd (high _ _ (by decide)) (Nat.not_le_of_lt hb)
  · rw [String.utf8EncodeChar_eq_cons_cons_cons hsize] at h
    simp only [List.mem_cons, List.not_mem_nil, or_false] at h
    rcases h with rfl | rfl | rfl <;> exact absurd (high _ _ (by decide)) (Nat.not_le_of_lt hb)
  · rw [String.utf8EncodeChar_eq_cons_cons_cons_cons hsize] at h
    simp only [List.mem_cons, List.not_mem_nil, or_false] at h
    rcases h with rfl | rfl | rfl | rfl <;>
      exact absurd (high _ _ (by decide)) (Nat.not_le_of_lt hb)

/-- An ASCII character is a single byte. -/
theorem utf8EncodeChar_ascii {c : Char} (h : c.toNat < 128) :
    String.utf8EncodeChar c = [UInt8.ofNat c.toNat] := by
  have hsize : c.utf8Size = 1 :=
    Char.utf8Size_eq_one_iff.mpr (UInt32.le_iff_toNat_le.mpr (Nat.le_of_lt_succ h))
  rw [String.utf8EncodeChar_eq_singleton hsize]
  rfl

end FormulaMarkup.Text
