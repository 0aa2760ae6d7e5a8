import FormulaMarkup.Proofs.Isolation.Delimiters
import FormulaMarkup.Proofs.Isolation.Plain
import FormulaMarkup.Proofs.Markup.Texts

/-!
# FormulaMarkup — the index in brackets

The bracket that closes the index of a radical is looked for between items only.  Unlike the other
tokens that end an expression it is an atom where one is looked for, so that a script marker in
front of it takes it for its argument.  This module says exactly when that happens to an index of
words and scripts.

* **`readRadical_plain`** — an index that ends in anything but a marker ends at its bracket.
* **`readRadical_dangling`** — any other goes on to the end of the input.
* **`parse_indexedRadical`** — both, for a whole source.
-/

namespace FormulaMarkup.Isolation

open Source Text Formula

/-! ## The body

The body of the radical stands in braces, and its text is a content of its own. -/

/-- A group `inBraces` is an atom in which nothing waits for what follows its content. -/
theorem read_inBraces {b : List Char} (hb : Plain b) (r : List Char) (levels : Nat) :
    (atomReader (levels + 2)).read (inBraces b r) = some ⟨(read b).value, r, []⟩ := by
  have hcloses : Notation.Closes [.groupEnd] ('}' :: r) :=
    .of_stop (by decide) .groupEnd List.mem_cons_self rfl
  rw [read_atomReader_succ (levels + 1) rfl]
  show some (readBraced (atomReader (levels + 1)) (b ++ '}' :: r)) = _
  rw [readBraced, readExpression_plain hb hcloses (.inl rfl)]
  rfl

/-! ## The index

The index is a plain text.  What the reader has come to at its end is known from `exists_progress`:
it stands between two items, or a marker waits for its argument, and then the bracket is this
argument. -/

section Index

variable {t b : List Char} (ht : Plain t) (hb : Plain b)
include ht hb

/-- **A bracket that no marker waits in front of closes the index**, by `readExpression_plain`, and
the body is read behind it. -/
theorem readRadical_plain (hapart : ¬ Dangling t) (levels : Nat) :
    readRadical (atomReader (levels + 2)) ('[' :: (t ++ ']' :: inBraces b [])) =
      ⟨.radical (read b).value (some (read t).value), [], []⟩ := by
  have hcloses : Notation.Closes [.bracketEnd] (']' :: inBraces b []) :=
    .of_stop (by decide) .bracketEnd List.mem_cons_self rfl
  have hbody : readArgument (atomReader (levels + 2)) (inBraces b []) =
      ⟨(read b).value, [], []⟩ :=
    readArgument_of_read (read_inBraces hb [] levels)
  rw [readRadical_of_bracket _ (skipBlank_cons (by decide) _),
    readExpression_plain ht hcloses (.inr hapart) (levels + 1)]
  show ((readArgument _ (inBraces b [])).map _).after [] = _
  rw [hbody]
  rfl

/-- **A marker in front of the bracket takes it**, and the expression goes on behind it, whatever it
waits for.  The tree is the same for all stops, so it is the one that `read` gives for the whole
source too. -/
theorem exists_taken (hdangling : Dangling t) :
    ∃ tree, ∀ levels stops,
      readExpression (atomReader (levels + 2)) stops (t ++ ']' :: inBraces b []) =
        ⟨tree, [], []⟩ := by
  obtain ⟨p, hp, hresume⟩ := exists_progress ht
  have hfollows : Follows (']' :: inBraces b []) := by
    rintro c r ⟨⟩
    decide
  cases hp with
  -- no marker waits, against the assumption
  | between h items => exact absurd hdangling h
  | @waiting marker kind found h hmarker hfound items base =>
    refine ⟨.ofItems (items ++ [(found.set kind (.operator "]" false)).attach base,
      (read b).value]), fun levels stops => ?_⟩
    have hskip : skipBlank (marker :: ']' :: inBraces b []) = marker :: ']' :: inBraces b [] :=
      skipBlank_cons (isBlank_eq_false_of_ofMarker? hmarker) _
    -- the bracket is an operator where an atom is looked for
    have hargument : readArgument (atomReader (levels + 2)) (']' :: inBraces b []) =
        ⟨.operator "]" false, inBraces b [], []⟩ :=
      readArgument_of_read (read_atomReader_succ (levels + 1) rfl)
    have hscripts : readScripts (atomReader (levels + 2)) found (marker :: ']' :: inBraces b []) =
        ⟨found.set kind (.operator "]" false), inBraces b [], []⟩ := by
      rw [readScripts_of_marker _ hskip hmarker hfound, hargument]
      exact congrArg (Reading.after [])
        (readScripts_of_other _ _ (skipBlank_cons (by decide) _) rfl)
    -- and the group after it is the last item
    have hgroup : readItems (atomReader (levels + 2)) stops (inBraces b []) =
        ⟨[(read b).value], [], []⟩ :=
      readItems_of_last (read_inBraces hb [] levels) (anyAt_eq_false (by decide) stops _)
    rw [readExpression, hresume (levels + 1) stops hfollows]
    simp only [Progress.resume, hscripts, Reading.map, hgroup]
    rfl

/-- The body is `emptyRow` if the index has taken its bracket, since the index has then gone on to
the end of the input. -/
theorem readRadical_dangling (hdangling : Dangling t) (levels : Nat) :
    readRadical (atomReader (levels + 2)) ('[' :: (t ++ ']' :: inBraces b [])) =
      ⟨.radical .emptyRow (some (read (t ++ ']' :: inBraces b [])).value), [], []⟩ := by
  obtain ⟨tree, htree⟩ := exists_taken ht hb hdangling
  have hread : read (t ++ ']' :: inBraces b []) = ⟨tree, [], []⟩ := htree 126 []
  rw [readRadical_of_bracket _ (skipBlank_cons (by decide) _), htree levels, hread]
  rfl

end Index

/-- A command that reads all that is left is the only item of a source. -/
theorem read_radical_alone {s : List Char} (hs : startsWithLetter s = false) {node : Formula}
    (h : readRadical (atomReader 127) s = ⟨node, [], []⟩) :
    read ('\\' :: ("sqrt".toList ++ s)) = ⟨node, [], []⟩ := by
  have hbody : readAtomBody (atomReader 127) ('\\' :: ("sqrt".toList ++ s)) = ⟨node, [], []⟩ :=
    (readAtomBody_letters _ "sqrt" (by decide) (by decide) hs).trans h
  have hatom : (atomReader maxNesting).read (skipBlank ('\\' :: ("sqrt".toList ++ s))) =
      some ⟨node, [], []⟩ := by
    rw [skipBlank_cons (by decide)]
    exact (read_atomReader_succ 127 rfl).trans (congrArg some hbody)
  rw [Formula.read, readExpression, readItems_of_last hatom rfl]
  rfl

/-- A radical with an index in brackets and a body in braces. -/
def indexedRadical (t b : List Char) : List Char :=
  "\\sqrt[".toList ++ (t ++ ']' :: inBraces b [])

/-- **The bracket closes the index of a radical unless a marker waits for its argument**, that is,
unless the index is `Dangling`.  The index and the body are then read as they would be alone.  A
marker at the end of the index takes the bracket instead, so that the index goes on to the end of
the input and the body is missing. -/
theorem parse_indexedRadical (config : Config) {t b : List Char} (ht : Plain t) (hb : Plain b) :
    (¬ Dangling t → parse config (indexedRadical t b) =
      ⟨.radical (parse config b).value (some (parse config t).value), [], []⟩) ∧
    (Dangling t → parse config (indexedRadical t b) =
      ⟨.radical .emptyRow (some (parse config (t ++ ']' :: inBraces b [])).value), [], []⟩) := by
  have hsource : indexedRadical t b =
      '\\' :: ("sqrt".toList ++ '[' :: (t ++ ']' :: inBraces b [])) := rfl
  rw [hsource]
  refine ⟨fun hapart => ?_, fun hdangling => ?_⟩
  · rw [parse, read_radical_alone rfl (readRadical_plain ht hb hapart 125)]
    rfl
  · rw [parse, read_radical_alone rfl (readRadical_dangling ht hb hdangling 125)]
    rfl

/-- An index that ends in a script, and one that ends in a marker. -/
theorem parse_indexedRadical_scripts :
    Plain "n^2 ".toList ∧ Plain "x^".toList ∧ Plain "y".toList ∧
    (¬ Dangling "n^2 ".toList ∧
      parse .standard (indexedRadical "n^2 ".toList "y".toList) =
        ⟨.radical (parse .standard "y".toList).value
          (some (parse .standard "n^2 ".toList).value), [], []⟩) ∧
    (Dangling "x^".toList ∧
      parse .standard (indexedRadical "x^".toList "y".toList) =
        ⟨.radical .emptyRow (some (parse .standard "x^]\x7by\x7d".toList).value), [], []⟩) := by
  have hscripted : Plain "n^2 ".toList ∧ ¬ Dangling "n^2 ".toList := by decide
  have hmarker : Plain "x^".toList ∧ Dangling "x^".toList := by decide
  have hbody : Plain "y".toList := by decide
  obtain ⟨hclosed, -⟩ := parse_indexedRadical .standard hscripted.1 hbody
  obtain ⟨-, htaken⟩ := parse_indexedRadical .standard hmarker.1 hbody
  exact ⟨hscripted.1, hmarker.1, hbody, ⟨hscripted.2, hclosed hscripted.2⟩, hmarker.2,
    htaken hmarker.2⟩

/-- A missing script is not the same in brackets as it is alone. -/
theorem parse_bracket_taken :
    (parse .standard "\\sqrt[x^]\x7by\x7d".toList).value ≠
      .radical (parse .standard "y".toList).value (some (parse .standard "x^".toList).value) := by
  -- the bracket is among the texts of the tree
  have htexts : (parse .standard "\\sqrt[x^]\x7by\x7d".toList).value.texts = ["x", "]", "y"] := by
    decide +kernel
  have hparts : (parse .standard "y".toList).value.texts = ["y"] ∧
      (parse .standard "x^".toList).value.texts = ["x"] := by
    decide +kernel
  intro h
  rw [h, Node.texts, Node.textsOption, hparts.1, hparts.2] at htexts
  revert htexts
  decide

end FormulaMarkup.Isolation
