/-!
# FormulaMarkup — blank characters

Blanks separate tokens and carry no meaning of their own.  This module fixes which characters
are blank and how a run of them is dropped at either end of a text.

* **`isBlank`** — the characters with the Unicode property `White_Space`.
* **`skipBlank`** — what is left of an input once its leading blanks are gone.
* **`trimBlankEnd`** — a text without its trailing blanks.
-/

namespace FormulaMarkup.Text

/-- Whether `c` has the Unicode property `White_Space`: the ASCII blanks, the no-break spaces,
the widths of space in the general punctuation block and the two separators. -/
def isBlank (c : Char) : Bool :=
  let n := c.toNat
  (9 ≤ n && n ≤ 13) || n == 0x20 || n == 0x85 || n == 0xA0 || n == 0x1680
    || (0x2000 ≤ n && n ≤ 0x200A) || n == 0x2028 || n == 0x2029 || n == 0x202F
    || n == 0x205F || n == 0x3000

/-- The text behind the blanks at its front. -/
def skipBlank (s : List Char) : List Char :=
  s.dropWhile isBlank

theorem skipBlank_suffix (s : List Char) : skipBlank s <:+ s :=
  List.dropWhile_suffix _

/-- After skipping, the next character is no blank. -/
theorem not_isBlank_of_skipBlank_eq_cons {s t : List Char} {c : Char}
    (h : skipBlank s = c :: t) : isBlank c = false := by
  have hne : s.dropWhile isBlank ≠ [] := by
    rw [show s.dropWhile isBlank = c :: t from h]
    exact List.cons_ne_nil _ _
  have hhead := List.head_dropWhile_not isBlank hne
  simpa [show s.dropWhile isBlank = c :: t from h] using hhead

/-- The text without its trailing blanks. -/
def trimBlankEnd (s : List Char) : List Char :=
  (skipBlank s.reverse).reverse

end FormulaMarkup.Text
