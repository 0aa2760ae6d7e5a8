import FormulaMarkup.Formula.Command
import FormulaMarkup.Formula.Table

/-!
# FormulaMarkup — atoms

The parts of a formula that stand for themselves: numbers, identifiers, operators, groups and
commands with their arguments.  Whatever an atom contains is read by the given reader.

* **`readAtomBody`** — an atom whose contents are read one level further down.
* **`readAtomBody_consumes`** — no atom is empty.
-/

namespace FormulaMarkup.Formula

open Source Text

/-- A run of digits, and a period with another run after it. -/
def readNumber (s : List Char) : Reading Formula :=
  let whole := s.takeWhile Char.isDigit
  match s.dropWhile Char.isDigit with
  | '.' :: t =>
    ⟨.number (String.ofList (whole ++ '.' :: t.takeWhile Char.isDigit)),
      t.dropWhile Char.isDigit, []⟩
  | t => ⟨.number (String.ofList whole), t, []⟩

/-- A run of letters is one identifier. -/
def readIdentifier (s : List Char) : Reading Formula :=
  ⟨.identifier (String.ofList (s.takeWhile Char.isAlpha)) false, s.dropWhile Char.isAlpha, []⟩

/-- An expression up to a brace (`.groupEnd`), which goes with it. -/
def readBraced (a : AtomReader) (s : List Char) : Reading Formula :=
  let content := readExpression a [.groupEnd] s
  -- what is left starts with the brace, unless nothing is left
  ⟨content.value, content.rest.drop 1, content.log⟩

/-- The glyph of a fence.  A command that names no fence leaves its name in the input and gives the
backslash as the glyph. -/
def readDelimiter (s : List Char) : String × List Char :=
  match skipBlank s with
  | [] => ("", [])
  | '\\' :: t =>
    let command := readCommand ('\\' :: t)
    match namedDelimiter? (String.ofList command.1) with
    | some glyph => (glyph, command.2)
    | none => ("\\", t)
  | c :: t => (literalDelimiter (String.singleton c), t)

/-- A body between two fences, up to the command `right`.  Without a closing one the body extends to
the end of the input. -/
def readFenced (a : AtomReader) (s : List Char) : Reading Formula :=
  let opening := readDelimiter s
  let body := readExpression a [.right] opening.2
  let closing :=
    if atCommand "right".toList body.rest then readDelimiter (readCommand body.rest).2
    else ("", body.rest)
  ⟨.fenced opening.1 closing.1 body.value, closing.2, body.log⟩

/-- A radical, whose index stands in brackets before the body.  The index is an expression that
waits for `.bracketEnd`, and one character is dropped behind it. -/
def readRadical (a : AtomReader) (s : List Char) : Reading Formula :=
  match skipBlank s with
  | '[' :: t =>
    let index := readExpression a [.bracketEnd] t
    -- what is left starts with the bracket, unless nothing is left
    let body := readArgument a (index.rest.drop 1)
    ⟨.radical body.value (some index.value), body.rest, index.log ++ body.log⟩
  | t =>
    let body := readArgument a t
    ⟨.radical body.value none, body.rest, body.log⟩

/-- An environment: a table (`readMatrix`), or an expression if the name is not that of a table.
Without a name there is nothing to read. -/
def readEnvironment (a : AtomReader) (s : List Char) : Reading Formula :=
  let name := readGroup s
  if name.1 = [] then ⟨.emptyRow, name.2, []⟩
  else
    match Environment.ofName? (String.ofList name.1) with
    | some environment =>
      readMatrix a environment
        (if environment.hasColumnSpec then (readGroup name.2).2 else name.2)
    | none =>
      let body := readExpression a [.environmentEnd name.1] name.2
      ⟨body.value, skipEnvironmentEnd body.rest, .unknownEnvironment name.1 :: body.log⟩

/-- What a `Command` stands for, with the arguments that it takes from the input. -/
def readCommandBody (a : AtomReader) (command : Command) (s : List Char) : Reading Formula :=
  match command with
  | .nothing => ⟨.emptyRow, s, []⟩
  | .fraction style =>
    let numerator := readArgument a s
    let denominator := readArgument a numerator.rest
    ⟨.fraction numerator.value denominator.value style, denominator.rest,
      numerator.log ++ denominator.log⟩
  | .radical => readRadical a s
  | .fence => readFenced a s
  | .environment => readEnvironment a s
  | .verbatim kind =>
    let text := readGroup s
    ⟨.text (String.ofList text.1) kind, text.2, []⟩
  | .phantom => (readArgument a s).map .phantom
  | .space name => ⟨.space name, s, []⟩
  | .styled variant => (readArgument a s).map (.styled variant)
  | .accent glyph position => (readArgument a s).map (.accent · glyph position)
  | .leaf node => ⟨node, s, []⟩
  | .unknown name => ⟨.identifier name false, s, [.unknownCommand name.toList]⟩

/-- Reads an atom whose contents are read by `a`. -/
def readAtomBody (a : AtomReader) : List Char → Reading Formula
  | [] => ⟨.emptyRow, [], []⟩
  | c :: t =>
    if c = '{' then readBraced a t
    else if c = '\\' then
      let command := readCommand (c :: t)
      readCommandBody a (.ofName (String.ofList command.1)) command.2
    else if c.isDigit then readNumber (c :: t)
    else if c.isAlpha then readIdentifier (c :: t)
    else ⟨.operator (String.singleton c) false, t, []⟩

/-! ### What an atom leaves

Each routine leaves a suffix of what it is given, and an atom takes one character at least.  That is
what lets the loop over items end. -/

/-- A number takes at least its first digit. -/
theorem readNumber_consumes {c : Char} (h : c.isDigit = true) (t : List Char) :
    (readNumber (c :: t)).rest <:+ c :: t ∧
      (readNumber (c :: t)).rest.length < (c :: t).length := by
  have hd : (c :: t).dropWhile Char.isDigit = t.dropWhile Char.isDigit := by simp [h]
  have hs : t.dropWhile Char.isDigit <:+ t := List.dropWhile_suffix _
  unfold readNumber
  rw [hd]
  split
  · next u hu =>
    have hu' : u.dropWhile Char.isDigit <:+ t :=
      (List.dropWhile_suffix _).trans ((List.suffix_cons _ _).trans (hu ▸ hs))
    exact ⟨hu'.trans (List.suffix_cons c t), Nat.lt_succ_of_le hu'.length_le⟩
  · exact ⟨hs.trans (List.suffix_cons c t), Nat.lt_succ_of_le hs.length_le⟩

/-- An identifier takes at least its first letter. -/
theorem readIdentifier_consumes {c : Char} (h : c.isAlpha = true) (t : List Char) :
    (readIdentifier (c :: t)).rest <:+ c :: t ∧
      (readIdentifier (c :: t)).rest.length < (c :: t).length := by
  have hd : (c :: t).dropWhile Char.isAlpha = t.dropWhile Char.isAlpha := by simp [h]
  have hs : t.dropWhile Char.isAlpha <:+ t := List.dropWhile_suffix _
  simp only [readIdentifier, hd]
  exact ⟨hs.trans (List.suffix_cons c t), Nat.lt_succ_of_le hs.length_le⟩

/-- What is left behind the glyph of a fence is a suffix. -/
theorem readDelimiter_suffix (s : List Char) : (readDelimiter s).2 <:+ s := by
  unfold readDelimiter
  split
  · exact List.nil_suffix
  · next t h =>
    have hs : '\\' :: t <:+ s := h ▸ skipBlank_suffix s
    dsimp only
    split
    · exact (readCommand_suffix _).trans hs
    · exact (List.suffix_cons _ _).trans hs
  · next c t _ h => exact (List.suffix_cons c t).trans (h ▸ skipBlank_suffix s)

theorem readBraced_suffix (a : AtomReader) (s : List Char) : (readBraced a s).rest <:+ s :=
  (List.drop_suffix _ _).trans (readExpression_suffix a _ s)

/-- What is left behind a fence is a suffix, whether it is closed or not. -/
theorem readFenced_suffix (a : AtomReader) (s : List Char) : (readFenced a s).rest <:+ s := by
  have hb := (readExpression_suffix a [.right] (readDelimiter s).2).trans (readDelimiter_suffix s)
  unfold readFenced
  dsimp only
  split
  · exact (readDelimiter_suffix _).trans ((readCommand_suffix _).trans hb)
  · exact hb

/-- What is left behind a radical is a suffix, with an index or without. -/
theorem readRadical_suffix (a : AtomReader) (s : List Char) : (readRadical a s).rest <:+ s := by
  unfold readRadical
  split
  · next t h =>
    exact (readArgument_suffix a _).trans ((List.drop_suffix _ _).trans
      ((readExpression_suffix a _ t).trans
        ((List.suffix_cons _ _).trans (h ▸ skipBlank_suffix s))))
  · exact (readArgument_suffix a _).trans (skipBlank_suffix s)

/-- What is left behind an environment is a suffix, whatever its name. -/
theorem readEnvironment_suffix (a : AtomReader) (s : List Char) :
    (readEnvironment a s).rest <:+ s := by
  have hg := readGroup_suffix s
  unfold readEnvironment
  dsimp only
  split
  · exact hg
  · split
    · refine (readRows_suffix a _ _ _).trans ?_
      split
      · exact (readGroup_suffix _).trans hg
      · exact hg
    · exact (skipEnvironmentEnd_suffix _).trans ((readExpression_suffix a _ _).trans hg)

/-- What is left behind a command is a suffix, whatever it stands for. -/
theorem readCommandBody_suffix (a : AtomReader) (command : Command) (s : List Char) :
    (readCommandBody a command s).rest <:+ s := by
  cases command with
  | nothing => exact List.suffix_refl s
  | fraction style => exact (readArgument_suffix a _).trans (readArgument_suffix a s)
  | radical => exact readRadical_suffix a s
  | fence => exact readFenced_suffix a s
  | environment => exact readEnvironment_suffix a s
  | verbatim kind => exact readGroup_suffix s
  | phantom => exact readArgument_suffix a s
  | space name => exact List.suffix_refl s
  | styled variant => exact readArgument_suffix a s
  | accent glyph position => exact readArgument_suffix a s
  | leaf node => exact List.suffix_refl s
  | unknown name => exact List.suffix_refl s

/-- **An atom consumes at least one character**, which is what `AtomReader` asks for. -/
theorem readAtomBody_consumes (a : AtomReader) (c : Char) (t : List Char) :
    (readAtomBody a (c :: t)).rest <:+ c :: t ∧
      (readAtomBody a (c :: t)).rest.length < (c :: t).length := by
  simp only [readAtomBody]
  split
  · have h := readBraced_suffix a t
    exact ⟨h.trans (List.suffix_cons c t), Nat.lt_succ_of_le h.length_le⟩
  · split
    · next hc =>
      subst hc
      have h := readCommandBody_suffix a (.ofName (String.ofList (readCommand ('\\' :: t)).1))
        (readCommand ('\\' :: t)).2
      exact ⟨h.trans (readCommand_suffix _),
        Nat.lt_of_le_of_lt h.length_le (readCommand_length_lt t)⟩
    · split
      · next hc => exact readNumber_consumes hc t
      · split
        · next hc => exact readIdentifier_consumes hc t
        · exact ⟨List.suffix_cons c t, by simp⟩

end FormulaMarkup.Formula
