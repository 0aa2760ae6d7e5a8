import FormulaMarkup.Text.Blank

/-!
# FormulaMarkup — classes of characters

Letters, digits and blanks are told apart by their numbers.  The reader decides by the first
character which routine goes on, so the cases of a proof exclude each other by the lemmas of this
module.

* **`isAlpha_iff`**, **`isDigit_iff`** — what separates the classes is a matter of inequalities.
* **`of_isDigit`** — what holds of the ten digits by inspection.
-/

namespace FormulaMarkup.Text

/-- A letter is one of two ranges of characters, the upper and the lower case of the Latin
alphabet. -/
theorem isAlpha_iff {c : Char} :
    c.isAlpha = true ↔ 65 ≤ c.toNat ∧ c.toNat ≤ 90 ∨ 97 ≤ c.toNat ∧ c.toNat ≤ 122 := by
  show (decide (65 ≤ c.val ∧ c.val ≤ 90) || (decide (97 ≤ c.val) && decide (c.val ≤ 122))) = true
    ↔ _
  simp only [Bool.or_eq_true, Bool.and_eq_true, decide_eq_true_eq, UInt32.le_iff_toNat_le]
  rfl

/-- A digit is one of ten characters. -/
theorem isDigit_iff {c : Char} : c.isDigit = true ↔ 48 ≤ c.toNat ∧ c.toNat ≤ 57 := by
  show (decide (48 ≤ c.val) && decide (c.val ≤ 57)) = true ↔ _
  simp only [Bool.and_eq_true, decide_eq_true_eq, UInt32.le_iff_toNat_le]
  rfl

/-- No letter is a blank. -/
theorem isBlank_eq_false_of_isAlpha {c : Char} (h : c.isAlpha = true) : isBlank c = false := by
  rw [isAlpha_iff] at h
  simp only [isBlank, Bool.or_eq_false_iff, Bool.and_eq_false_iff, decide_eq_false_iff_not,
    beq_eq_false_iff_ne]
  omega

/-- No digit is a blank. -/
theorem isBlank_eq_false_of_isDigit {c : Char} (h : c.isDigit = true) : isBlank c = false := by
  rw [isDigit_iff] at h
  simp only [isBlank, Bool.or_eq_false_iff, Bool.and_eq_false_iff, decide_eq_false_iff_not,
    beq_eq_false_iff_ne]
  omega

/-- No letter is a digit. -/
theorem isDigit_eq_false_of_isAlpha {c : Char} (h : c.isAlpha = true) : c.isDigit = false := by
  rw [isAlpha_iff] at h
  rw [Bool.eq_false_iff, ne_eq, isDigit_iff]
  omega

/-- What is claimed of the characters of a list is decided by going through the list, and not
through all characters. -/
instance (priority := high) decidableForallMem (p : Char → Prop) [DecidablePred p]
    (l : List Char) : Decidable (∀ c, c ∈ l → p c) :=
  List.decidableBAll p l

/-- What holds of the ten digits by inspection holds of every digit. -/
theorem of_isDigit {motive : Char → Prop} (h : ∀ n < 10, motive (Char.ofNat (48 + n))) {c : Char}
    (hc : c.isDigit = true) : motive c := by
  obtain ⟨hlow, hhigh⟩ := isDigit_iff.mp hc
  have hdigit := h (c.toNat - 48) (by omega)
  rw [show 48 + (c.toNat - 48) = c.toNat by omega, Char.ofNat_toNat] at hdigit
  exact hdigit

end FormulaMarkup.Text
