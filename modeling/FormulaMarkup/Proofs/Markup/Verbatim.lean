import FormulaMarkup.Proofs.Isolation.Delimiters
import FormulaMarkup.Proofs.Markup.Annotation
import FormulaMarkup.Proofs.Source.Groups

/-!
# FormulaMarkup — texts taken as they are

A text of words is a group of which nothing is looked at but the braces.  So it reaches the output
character by character, backslashes and tags included, whatever the configuration.

What is read of a group is known for every input (`Proofs.Source.Groups`).  Here the text is
followed from the command in front of the group to the element in the output, where it stands
escaped.

* **`wordsSource`**, **`wordsMarkup`** — such a text in a source and in the output.
* **`read_words`**, **`parse_words`** — it is read as it is, anywhere and as a whole source.
* **`lines_words`** — it is shown as one element, with its text escaped.
* **`TakenAsItIs`** — all this, from the source to the output.
* **`group_taken_as_it_is`** — groups on any input, and texts of words from source to output.
-/

namespace FormulaMarkup.Markup

open Source Text Formula Isolation

/-- A text of words as it is written in a source, `\text` and the text between braces, with what
follows. -/
def wordsSource (t r : List Char) : List Char := "\\text".toList ++ inBraces t r

/-- A text of words as it is shown. -/
def wordsMarkup (t : List Char) : List Char := "<mtext>".toList ++ (escape t ++ "</mtext>".toList)

/-! ## Reading

The braces of the text match, and so the group ends behind it and nowhere else. -/

/-- **A text of words is read as it is** wherever `atomReader` has a level left; nothing behind it
is touched. -/
theorem read_words {t : List Char} (ht : Balanced t) (r : List Char) (levels : Nat) :
    (atomReader (levels + 1)).read (wordsSource t r)
      = some ⟨.text (String.ofList t) .words, r, []⟩ := by
  have hgroup : readGroup (inBraces t r) = (t, r) := groupText_balanced ht r
  have hbody : readAtomBody (atomReader levels) (wordsSource t r)
      = readCommandBody (atomReader levels) (.verbatim .words) (inBraces t r) :=
    readAtomBody_letters (atomReader levels) "text" (by decide) (by decide) rfl
  rw [read_atomReader_succ levels rfl, hbody, readCommandBody, hgroup]

/-- A text of words as a whole source is parsed as that text, with nothing left and nothing
reported.  The outermost level is one of those that are left, so `read_words` applies. -/
theorem parse_words (config : Config) {t : List Char} (ht : Balanced t) :
    parse config (wordsSource t []) = ⟨.text (String.ofList t) .words, [], []⟩ := by
  have hskip : skipBlank (wordsSource t []) = wordsSource t [] := skipBlank_cons (by decide) _
  have hread : (atomReader maxNesting).read (skipBlank (wordsSource t []))
      = some ⟨.text (String.ofList t) .words, [], []⟩ := by
    rw [hskip]
    exact read_words ht [] (maxNesting - 1)
  rw [parse, Formula.read, readExpression, readItems_of_last hread rfl]
  rfl

/-! ## Showing

A text of words takes up one line, so that a document is that line with the same parts around it for
all texts. -/

/-- **A text of words is shown as one element**, which is a line of its own at any `depth`. -/
theorem lines_words (config : Config) (t : List Char) (depth : Nat) :
    (presentation config (.text (String.ofList t) .words)).lines depth
      = [⟨depth, wordsMarkup t⟩] := by
  show [Line.mk depth
    (appendEscaped (openTag .mtext []) (String.ofList t).toList ++ closeTag .mtext)] = _
  rw [appendEscaped_eq, String.toList_ofList, List.append_assoc]
  rfl

/-- At any level it has the line break of that level in front. -/
theorem nodeText_words (config : Config) (t : List Char) (level : Nat) :
    nodeText config level (.text (String.ofList t) .words)
      = indentation level ++ wordsMarkup t := by
  rw [nodeText, Element.textAt, lines_words, lines_words, indentation]
  split
  · simp [flat]
  · simp [indented]

theorem writtenWith_words (lead : Nat → List Char) (config : Config) (t : List Char) (depth : Nat) :
    writtenWith lead ((presentation config (.text (String.ofList t) .words)).lines depth)
      = lead depth ++ wordsMarkup t := by
  rw [lines_words]
  simp [writtenWith]

/-- The output for a formula that takes up one line. -/
def bareMarkup (config : Config) (formula : List Char) : List Char :=
  openTag .math (rootAttributes config) ++ leadOf config.isPretty 1 ++ formula
    ++ leadOf config.isPretty 0 ++ "</math>".toList

/-- The output for a formula that takes up one line, with its source beside it. -/
def annotatedMarkup (config : Config) (formula source : List Char) : List Char :=
  openTag .math (rootAttributes config) ++ leadOf config.isPretty 1 ++ "<semantics>".toList
    ++ leadOf config.isPretty 2 ++ formula ++ leadOf config.isPretty 2
    ++ "<annotation encoding=\"application/x-tex\">".toList ++ escape source
    ++ "</annotation>".toList ++ leadOf config.isPretty 1 ++ "</semantics>".toList
    ++ leadOf config.isPretty 0 ++ "</math>".toList

/-- A document without its source has the text in its root. -/
theorem print_words (config : Config) (t : List Char) :
    (document config (.text (String.ofList t) .words) none).print config.isPretty
      = bareMarkup config (wordsMarkup t) := by
  have hclose : writtenWith (leadOf config.isPretty) [⟨0, closeTag .math⟩]
      = leadOf config.isPretty 0 ++ "</math>".toList := List.append_nil _
  rw [document, print_container, hclose, Element.linesAll, Element.linesAll, List.append_nil,
    writtenWith_words, bareMarkup]
  simp only [List.append_assoc]

/-- A document with its source has both in the wrapper, and the source is `wordsSource` with its
backslash. -/
theorem print_annotated_words (config : Config) (t source : List Char) :
    (document config (.text (String.ofList t) .words) (some source)).print config.isPretty
      = annotatedMarkup config (wordsMarkup t) source := by
  have hopen : tagText "semantics".toList = "<semantics>".toList := rfl
  have hsource : tagText "annotation encoding=\"application/x-tex\"".toList
      = "<annotation encoding=\"application/x-tex\">".toList := rfl
  have hend : tagText "/annotation".toList = "</annotation>".toList := rfl
  have hclose : tagText "/semantics".toList = "</semantics>".toList := rfl
  have hroot : closeTag .math = "</math>".toList := rfl
  rw [print_annotated, writtenWith_words, annotatedMarkup, hopen, hsource, hend, hclose, hroot]
  simp only [List.append_assoc]

/-! ## From the source to the output

What has been shown for each stage is put together.  The statement on groups has three cases, and
texts of words belong to the one in which the braces match. -/

/-- A text of words is taken as it is.  With anything behind it and wherever a level is left, it is
read without being looked at; as a source of its own it is that text and nothing else, and is shown
as one element with the text escaped, at every level of indentation and in every document. -/
structure TakenAsItIs (config : Config) (t : List Char) : Prop where
  read : ∀ levels r, (atomReader (levels + 1)).read (wordsSource t r)
    = some ⟨.text (String.ofList t) .words, r, []⟩
  parsed : parse config (wordsSource t []) = ⟨.text (String.ofList t) .words, [], []⟩
  shown : ∀ level, nodeText config level (parse config (wordsSource t [])).value
    = indentation level ++ wordsMarkup t
  rendered : render config (parse config (wordsSource t [])).value
    = bareMarkup config (wordsMarkup t)
  converted : convert config (wordsSource t [])
    = if config.annotates then annotatedMarkup config (wordsMarkup t) (wordsSource t [])
      else bareMarkup config (wordsMarkup t)

/-- **A text whose braces match is taken as it is**, from the source to the output. -/
theorem takenAsItIs_of_balanced (config : Config) {t : List Char} (ht : Balanced t) :
    TakenAsItIs config t := by
  have hparse := parse_words config ht
  constructor
  case read => exact fun levels r => read_words ht r levels
  case parsed => exact hparse
  case shown =>
    intro level
    rw [hparse, nodeText_words]
  case rendered => rw [hparse, render, print_words]
  -- with its source or without
  case converted =>
    rw [convert, renderWithSource, hparse]
    cases config.annotates with
    | true => exact print_annotated_words config t (wordsSource t [])
    | false => exact print_words config t

/-- **A group is taken as it is**, anywhere in a source.  If no brace comes behind the blanks, the
text is empty and only the blanks are consumed.  If what is behind the brace starts with a
`Balanced` text and a brace that closes it, this text is the only one of its kind, and it is
consumed with the blanks and both braces; if it does not, all of it is consumed and is the text.  So
any text whose braces match is read from between two braces, whatever follows; and as a text of
words it is shown as one element, escaped, backslashes included. -/
theorem group_taken_as_it_is (config : Config) (front input : List Char) :
    ((∀ u, skipBlank input ≠ '{' :: u) →
      GroupRead front input [] (input.takeWhile isBlank) (skipBlank input)) ∧
    (∀ u, skipBlank input = '{' :: u →
      (∀ t r, Balanced t → u = t ++ '}' :: r →
        (∀ t' r', Balanced t' → u = t' ++ '}' :: r' → t' = t) ∧
        GroupRead front input t (input.takeWhile isBlank ++ '{' :: (t ++ ['}'])) r) ∧
      ((∀ t r, Balanced t → u ≠ t ++ '}' :: r) → GroupRead front input u input [])) ∧
    ∀ t, Balanced t →
      (∀ r, GroupRead front ('{' :: (t ++ '}' :: r)) t ('{' :: (t ++ ['}'])) r) ∧
      TakenAsItIs config t := by
  refine ⟨groupRead_missing front, fun u hopen => ⟨?_, groupRead_unclosed front hopen⟩,
    fun t ht => ⟨fun r => ?_, takenAsItIs_of_balanced config ht⟩⟩
  · rintro t r ht rfl
    exact ⟨fun t' r' ht' h => ht'.eq_of_append ht h.symm, groupRead_closed front ht hopen⟩
  · -- no blanks are in front of the brace
    exact groupRead_closed front ht (skipBlank_cons (by decide) _)

/-- A group in a group behind blanks and with more behind it, a group of which only the inner one is
closed, something that is no group, and a text of words with a command and a tag in it. -/
theorem group_taken_as_it_is_nested :
    (skipBlank "  \x7ba\x7bβ\x7dc\x7d d".toList = '{' :: "a\x7bβ\x7dc\x7d d".toList ∧
      Balanced "a\x7bβ\x7dc".toList ∧
      (∀ t r, Balanced t → "a\x7bβ\x7dc\x7d d".toList = t ++ '}' :: r → t = "a\x7bβ\x7dc".toList) ∧
      GroupRead "α".toList "  \x7ba\x7bβ\x7dc\x7d d".toList "a\x7bβ\x7dc".toList
        "  \x7ba\x7bβ\x7dc\x7d".toList " d".toList) ∧
    ((∀ t r, Balanced t → "a \x7bb\x7d".toList ≠ t ++ '}' :: r) ∧
      GroupRead [] "\x7ba \x7bb\x7d".toList "a \x7bb\x7d".toList "\x7ba \x7bb\x7d".toList []) ∧
    ((∀ u, skipBlank " x\x7b\x7d".toList ≠ '{' :: u) ∧
      GroupRead [] " x\x7b\x7d".toList [] " ".toList "x\x7b\x7d".toList) ∧
    Balanced " \\alpha \x7b<\x7d".toList ∧ TakenAsItIs .standard " \\alpha \x7b<\x7d".toList := by
  -- the conditions of the four cases, each by a computation
  have hopen : skipBlank "  \x7ba\x7bβ\x7dc\x7d d".toList = '{' :: "a\x7bβ\x7dc\x7d d".toList := by
    decide
  have hinner : Balanced "a\x7bβ\x7dc".toList := by decide
  have hunclosed : ∀ t r, Balanced t → "a \x7bb\x7d".toList ≠ t ++ '}' :: r :=
    groupText_unclosed_iff.mp (by decide)
  have hmissing : ∀ u, skipBlank " x\x7b\x7d".toList ≠ '{' :: u := fun u h =>
    absurd (List.cons.inj h).1 (by decide)
  have hwords : Balanced " \\alpha \x7b<\x7d".toList := by decide
  have hclosed := (group_taken_as_it_is .standard "α".toList _).2.1 _ hopen
  have hall := (group_taken_as_it_is .standard [] "\x7ba \x7bb\x7d".toList).2.1 _ rfl
  exact ⟨⟨hopen, hinner, hclosed.1 _ " d".toList hinner rfl⟩, ⟨hunclosed, hall.2 hunclosed⟩,
    ⟨hmissing, (group_taken_as_it_is .standard [] _).1 hmissing⟩, hwords,
    ((group_taken_as_it_is .standard [] []).2.2 _ hwords).2⟩

end FormulaMarkup.Markup
