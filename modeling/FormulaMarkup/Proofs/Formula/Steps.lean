import FormulaMarkup.Formula.Reader
import FormulaMarkup.Proofs.Source.Tokens

/-!
# FormulaMarkup — one step of each loop

The loops of the reader look at the next character and decide.  Each lemma here says what a loop
does in one of its cases, so that nothing else has to look into the loops.  The hypotheses are about
the input without its leading blanks, since this is what the loops look at, and together the lemmas
of a loop cover every input.

* **`readScripts_of_marker`** and its neighbours — scripts.
* **`readItems_of_item`** and its neighbours — the items of an expression.
* **`readStray_of_not_marker`** — what stands where no atom starts.
* **`readRows_of_column`** and its neighbours — the cells of a table.
* **`read_atomReader_succ`** — an atom one level further down.
-/

namespace FormulaMarkup.Formula

open Source Text

/-! ## Scripts

The loop over scripts ends at anything that is no marker, and at a marker of a kind that has been
found.  A marker of a new kind takes an argument and goes on. -/

/-- A marker is one of two characters, which tell the kind: `_` that of a subscript and `^` that of
a superscript. -/
theorem eq_of_ofMarker? {c : Char} {kind : ScriptKind} (h : ScriptKind.ofMarker? c = some kind) :
    (kind = .sub → c = '_') ∧ (kind = .sup → c = '^') := by
  unfold ScriptKind.ofMarker? at h
  split at h
  · next hsub =>
    cases h
    refine ⟨fun _ => hsub, ?_⟩
    rintro ⟨⟩
  · split at h
    · next hsup =>
      cases h
      refine ⟨?_, fun _ => hsup⟩
      rintro ⟨⟩
    · cases h

/-- `readScripts` ends where no marker follows, behind the blanks. -/
theorem readScripts_of_not_marker (a : AtomReader) (found : Scripts) {s : List Char}
    (h : ∀ c t, skipBlank s = c :: t → ScriptKind.ofMarker? c = none) :
    readScripts a found s = ⟨found, skipBlank s, []⟩ := by
  rw [readScripts]
  split
  · next hnil => rw [hnil]
  · next c t hcons => simp only [h c t hcons, hcons]

theorem readScripts_of_nil (a : AtomReader) (found : Scripts) {s : List Char}
    (h : skipBlank s = []) : readScripts a found s = ⟨found, [], []⟩ := by
  rw [readScripts_of_not_marker a found (by simp [h]), h]

/-- `readScripts` ends at a character that is no marker, which is left. -/
theorem readScripts_of_other (a : AtomReader) (found : Scripts) {s t : List Char} {c : Char}
    (h : skipBlank s = c :: t) (hc : ScriptKind.ofMarker? c = none) :
    readScripts a found s = ⟨found, c :: t, []⟩ := by
  have hnone : ∀ d u, skipBlank s = d :: u → ScriptKind.ofMarker? d = none := by
    rw [h]
    rintro d u ⟨⟩
    exact hc
  rw [readScripts_of_not_marker a found hnone, h]

/-- At a marker of a kind that has not been found, `readScripts` takes an argument and goes on. -/
theorem readScripts_of_marker (a : AtomReader) {found : Scripts} {s t : List Char} {c : Char}
    {kind : ScriptKind} (h : skipBlank s = c :: t) (hc : ScriptKind.ofMarker? c = some kind)
    (hfound : (found.get kind).isSome = false) :
    readScripts a found s =
      (readScripts a (found.set kind (readArgument a t).value) (readArgument a t).rest).after
        (readArgument a t).log := by
  rw [readScripts]
  split
  · next hnil => simp [h] at hnil
  · next c' t' hcons =>
    obtain ⟨rfl, rfl⟩ : c = c' ∧ t = t' := by simpa [h] using hcons
    simp only [hc, hfound, Bool.false_eq_true, if_false]

/-- At a marker of a kind that has been found already, `readScripts` ends and leaves the marker. -/
theorem readScripts_of_found (a : AtomReader) {found : Scripts} {s t : List Char} {c : Char}
    {kind : ScriptKind} (h : skipBlank s = c :: t) (hc : ScriptKind.ofMarker? c = some kind)
    (hfound : (found.get kind).isSome = true) : readScripts a found s = ⟨found, c :: t, []⟩ := by
  rw [readScripts]
  split
  · next hnil => simp [h] at hnil
  · next c' t' hcons =>
    obtain ⟨rfl, rfl⟩ : c = c' ∧ t = t' := by simpa [h] using hcons
    simp only [hc, hfound, if_true]

/-! ## Items

The loop over items ends at the end of the input and at a stop.  Everything else is an item, whose
nodes come in front of those of the items behind it. -/

/-- `readItems` ends where nothing but blanks follows. -/
theorem readItems_of_nil (a : AtomReader) (stops : List Stop) {s : List Char}
    (h : skipBlank s = []) : readItems a stops s = ⟨[], [], []⟩ := by
  rw [readItems]
  split
  · rfl
  · next hcons => simp [h] at hcons

/-- `readItems` ends at a stop, which is left. -/
theorem readItems_of_stop (a : AtomReader) {stops : List Stop} {s t : List Char} {c : Char}
    (h : skipBlank s = c :: t) (hstop : Stop.anyAt stops (c :: t) = true) :
    readItems a stops s = ⟨[], c :: t, []⟩ := by
  rw [readItems]
  split
  · next hnil => simp [h] at hnil
  · next c' t' hcons =>
    obtain ⟨rfl, rfl⟩ : c = c' ∧ t = t' := by simpa [h] using hcons
    simp only [hstop, if_true]

/-- At anything else `readItems` reads an item and goes on behind it. -/
theorem readItems_of_item (a : AtomReader) {stops : List Stop} {s t : List Char} {c : Char}
    (h : skipBlank s = c :: t) (hstop : Stop.anyAt stops (c :: t) = false) :
    readItems a stops s =
      ((readItems a stops (readItem a (c :: t)).rest).map
        ((readItem a (c :: t)).value.toList ++ ·)).after (readItem a (c :: t)).log := by
  rw [readItems]
  split
  · next hnil => simp [h] at hnil
  · next c' t' hcons =>
    obtain ⟨rfl, rfl⟩ : c = c' ∧ t = t' := by simpa [h] using hcons
    simp only [hstop, Bool.false_eq_true, if_false]

/-- Blanks before an expression do not matter, because `readItems` skips them. -/
theorem readItems_skipBlank (a : AtomReader) (stops : List Stop) (s : List Char) :
    readItems a stops (skipBlank s) = readItems a stops s := by
  cases h : skipBlank s with
  | nil =>
    rw [readItems_of_nil a stops h, readItems_of_nil a stops (s := []) rfl]
  | cons c t =>
    have hskip : skipBlank (c :: t) = c :: t :=
      skipBlank_cons (not_isBlank_of_skipBlank_eq_cons h) t
    cases hstop : Stop.anyAt stops (c :: t) with
    | true => rw [readItems_of_stop a h hstop, readItems_of_stop a hskip hstop]
    | false => rw [readItems_of_item a h hstop, readItems_of_item a hskip hstop]

/-- Where an atom is read, `readItems` takes it together with the scripts after it. -/
theorem readItems_of_atom {a : AtomReader} {stops : List Stop} {s : List Char}
    {atom scripted : Reading Formula} (h : a.read (skipBlank s) = some atom)
    (hstop : Stop.anyAt stops (skipBlank s) = false)
    (hscripts : readScripted a atom.value atom.rest = scripted) :
    readItems a stops s =
      ((readItems a stops scripted.rest).map (scripted.value :: ·)).after
        (atom.log ++ scripted.log) := by
  subst hscripts
  cases hs : skipBlank s with
  | nil =>
    -- an atom consumes something
    have hlt := (a.consumes h).2
    rw [hs] at hlt
    cases hlt
  | cons c t =>
    -- the atom starts behind the blanks, so it is the first item
    rw [hs] at h hstop
    rw [readItems_of_item a hs hstop, readItem, h]
    rfl

/-- An atom behind which nothing is left is the last item. -/
theorem readItems_of_last {a : AtomReader} {stops : List Stop} {s : List Char} {node : Formula}
    (h : a.read (skipBlank s) = some ⟨node, [], []⟩)
    (hstop : Stop.anyAt stops (skipBlank s) = false) : readItems a stops s = ⟨[node], [], []⟩ := by
  have hscripts : readScripted a node [] = ⟨node, [], []⟩ := by
    rw [readScripted, readScripts_of_nil a _ rfl]
    rfl
  rw [readItems_of_atom h hstop hscripts, readItems_of_nil a stops rfl]
  rfl

/-! ## Stray tokens

Where no atom starts there is a marker without a base, an ampersand, a double backslash, the end of
an environment or of a fence, or a closing brace.  Some of them become a node and all are consumed.
-/

/-- A marker without a base is a script of `emptyRow`. -/
theorem readStray_of_marker (a : AtomReader) {c : Char} {kind : ScriptKind}
    (hc : ScriptKind.ofMarker? c = some kind) (t : List Char) :
    readStray a (c :: t) = (readScripted a .emptyRow (c :: t)).map some := by
  unfold readStray
  simp only [hc]

/-- What is no marker stands for the same under every `AtomReader`, since `readStray` reads no atom
there. -/
theorem readStray_of_not_marker (a : AtomReader) {c : Char}
    (hc : ScriptKind.ofMarker? c = none) (t : List Char) :
    readStray a (c :: t) =
      if c = '&' then ⟨some (.operator "&" false), t, []⟩
      else if c = '\\' then
        if t.head? = some '\\' then ⟨some .lineBreak, t.tail, []⟩
        else if atCommand "end".toList (c :: t) = true then
          ⟨none, (readGroup (readCommand (c :: t)).2).2,
            [.strayEnd (readGroup (readCommand (c :: t)).2).1]⟩
        else ⟨none, (readCommand (c :: t)).2, []⟩
      else ⟨none, t, []⟩ := by
  unfold readStray
  simp only [hc]
  -- only the test for a double backslash is written in another way
  congr 2
  split
  · rfl
  · next hrow =>
    have hhead : t.head? ≠ some '\\' := by
      intro h
      obtain ⟨u, rfl⟩ := List.head?_eq_some_iff.mp h
      exact hrow u rfl
    rw [if_neg hhead]

/-! ## What is left, on any input

Each reading leaves an end of its input, so a loop that goes on behind one has less before it. -/

/-- What `readStray` leaves is an end of its input. -/
theorem readStray_suffix (a : AtomReader) (s : List Char) : (readStray a s).rest <:+ s := by
  cases s with
  | nil => exact List.suffix_refl []
  | cons c t => exact (readStray_consumes a c t).1

/-- What `readItem` leaves is an end of its input. -/
theorem readItem_suffix (a : AtomReader) (s : List Char) : (readItem a s).rest <:+ s := by
  unfold readItem
  split
  · next r h => exact (readScripts_suffix a .none r.rest).trans (a.consumes h).1
  · exact readStray_suffix a s

/-- What `readNumber` leaves is an end of its input. -/
theorem readNumber_suffix (s : List Char) : (readNumber s).rest <:+ s := by
  have hs : s.dropWhile Char.isDigit <:+ s := List.dropWhile_suffix _
  unfold readNumber
  split
  · next t ht =>
    rw [ht] at hs
    exact (List.dropWhile_suffix _).trans ((List.suffix_cons _ _).trans hs)
  · exact hs

/-! ## Rows

A cell ends at an ampersand, at a double backslash, or at something else, and the three lemmas are
about what the rest of the table is in each of these cases. -/

/-- If the cell is left at an ampersand, `readRows` goes on with the next cell of the row. -/
theorem readRows_of_column (a : AtomReader) (environment : List Char) (cells : List Formula)
    {s r : List Char} (hs : s ≠ [])
    (h : (readExpression a (cellStops environment) s).rest = '&' :: r) :
    readRows a environment cells s =
      (readRows a environment (cells ++ [(readExpression a (cellStops environment) s).value])
        r).after (readExpression a (cellStops environment) s).log := by
  obtain ⟨c, t, rfl⟩ := List.exists_cons_of_ne_nil hs
  rw [readRows]
  split
  · next r' h' =>
    obtain rfl : r = r' := by simpa [h] using h'
    rfl
  · next h' => simp [h] at h'
  · next hcolumn _ => exact absurd h (hcolumn r)

/-- If the cell is left at a double backslash, `readRows` goes on with the next row. -/
theorem readRows_of_row (a : AtomReader) (environment : List Char) (cells : List Formula)
    {s r : List Char} (hs : s ≠ [])
    (h : (readExpression a (cellStops environment) s).rest = '\\' :: '\\' :: r) :
    readRows a environment cells s =
      ((readRows a environment [] r).map
        ((cells ++ [(readExpression a (cellStops environment) s).value]) :: ·)).after
        (readExpression a (cellStops environment) s).log := by
  obtain ⟨c, t, rfl⟩ := List.exists_cons_of_ne_nil hs
  rw [readRows]
  split
  · next h' => simp [h] at h'
  · next r' h' =>
    obtain rfl : r = r' := by simpa [h] using h'
    rfl
  · next _ hrow => exact absurd h (hrow r)

/-- If the cell is left anywhere else, the table is closed there, and `skipEnvironmentEnd` tells
what is left. -/
theorem readRows_of_end (a : AtomReader) (environment : List Char) (cells : List Formula)
    {s : List Char} (hs : s ≠ [])
    (hcolumn : ∀ r, (readExpression a (cellStops environment) s).rest ≠ '&' :: r)
    (hrow : ∀ r, (readExpression a (cellStops environment) s).rest ≠ '\\' :: '\\' :: r) :
    readRows a environment cells s =
      ⟨[cells ++ [(readExpression a (cellStops environment) s).value]],
        skipEnvironmentEnd (readExpression a (cellStops environment) s).rest,
        (readExpression a (cellStops environment) s).log⟩ := by
  obtain ⟨c, t, rfl⟩ := List.exists_cons_of_ne_nil hs
  rw [readRows]
  split
  · next r h => exact absurd h (hcolumn r)
  · next r h => exact absurd h (hrow r)
  · rfl

/-! ## Radicals

A bracket behind the blanks begins an index.  Without one the body follows. -/

/-- Behind a bracket `readRadical` reads the index up to its end, or as far as it can, and drops one
character there before it reads the body. -/
theorem readRadical_of_bracket (a : AtomReader) {s t : List Char} (h : skipBlank s = '[' :: t) :
    readRadical a s =
      ((readArgument a ((readExpression a [.bracketEnd] t).rest.drop 1)).map
        (.radical · (some (readExpression a [.bracketEnd] t).value))).after
        (readExpression a [.bracketEnd] t).log := by
  unfold readRadical
  rw [h]
  rfl

/-- Without a bracket `readRadical` reads no index, and the body is the next argument. -/
theorem readRadical_of_not_bracket (a : AtomReader) {s : List Char}
    (h : ∀ t, skipBlank s ≠ '[' :: t) :
    readRadical a s = (readArgument a (skipBlank s)).map (.radical · none) := by
  unfold readRadical
  split
  · next t ht => exact absurd ht (h t)
  · rfl

/-! ## Numbers

A period belongs to a number if it stands directly behind the digits, whatever follows it. -/

/-- With a period, `readNumber` takes the digits behind it too, which may be none. -/
theorem readNumber_of_period {s t : List Char} (h : s.dropWhile Char.isDigit = '.' :: t) :
    readNumber s =
      ⟨.number (String.ofList (s.takeWhile Char.isDigit ++ '.' :: t.takeWhile Char.isDigit)),
        t.dropWhile Char.isDigit, []⟩ := by
  unfold readNumber
  rw [h]
  rfl

/-- Without a period, `readNumber` takes the digits alone. -/
theorem readNumber_of_not_period {s : List Char} (h : ∀ t, s.dropWhile Char.isDigit ≠ '.' :: t) :
    readNumber s =
      ⟨.number (String.ofList (s.takeWhile Char.isDigit)), s.dropWhile Char.isDigit, []⟩ := by
  unfold readNumber
  split
  · next t ht => exact absurd ht (h t)
  · rfl

/-! ## Fences

The glyph of a fence is a command with a known name or any one character. -/

theorem readDelimiter_skipBlank (s : List Char) :
    readDelimiter (skipBlank s) = readDelimiter s := by
  rw [readDelimiter, skipBlank_skipBlank, readDelimiter]

/-- Behind a backslash, `readDelimiter` looks the name of the command up; a name without a glyph
gives the backslash itself. -/
theorem readDelimiter_slash (t : List Char) :
    readDelimiter ('\\' :: t) =
      (namedDelimiter? (String.ofList (readCommand ('\\' :: t)).1)).elim ("\\", t)
        (·, (readCommand ('\\' :: t)).2) := by
  have hskip : skipBlank ('\\' :: t) = '\\' :: t := skipBlank_cons (by decide) t
  rw [readDelimiter, hskip]
  cases h : namedDelimiter? (String.ofList (readCommand ('\\' :: t)).1) <;> simp [h]

/-- Any other character is its own glyph to `readDelimiter`; a period stands for none. -/
theorem readDelimiter_of_ne {c : Char} (hblank : isBlank c = false) (hslash : c ≠ '\\')
    (t : List Char) : readDelimiter (c :: t) = (literalDelimiter (String.singleton c), t) := by
  rw [readDelimiter, skipBlank_cons hblank]
  split
  · next h => cases h
  · next h => exact absurd (List.cons.inj h).1 hslash
  · next h =>
    obtain ⟨rfl, rfl⟩ := List.cons.inj h
    rfl

/-! ## Atoms and arguments

An atom is read with one level less than there are around it, and only where it starts.  Whether it
starts does not depend on the levels, so neither does whether something is read. -/

theorem readAtomBody_of_readCommand (a : AtomReader) {name : String} {s t : List Char}
    (h : readCommand ('\\' :: s) = (name.toList, t)) :
    readAtomBody a ('\\' :: s) = readCommandBody a (.ofName name) t := by
  have hopen : ('\\' = '{') = False := by simp
  simp only [readAtomBody, h, hopen, String.ofList_toList, if_true, if_false]

/-- A command is read behind its name by `readCommandBody`, if no letter follows the name. -/
theorem readAtomBody_letters (a : AtomReader) (name : String) (hne : name.toList ≠ [])
    (hname : ∀ c ∈ name.toList, c.isAlpha = true) {s : List Char}
    (hs : startsWithLetter s = false) :
    readAtomBody a ('\\' :: (name.toList ++ s)) = readCommandBody a (.ofName name) s :=
  readAtomBody_of_readCommand a (readCommand_letters hne hname hs)

/-- The denominator of a fraction is read behind the numerator, and the logs go one behind the
other. -/
theorem readCommandBody_fraction (a : AtomReader) (style : FractionStyle) (s : List Char) :
    readCommandBody a (.fraction style) s =
      ((readArgument a (readArgument a s).rest).map
        (.fraction (readArgument a s).value · style)).after (readArgument a s).log :=
  rfl

/-- `startsAtom` looks at the first character and, behind a backslash, at the next one and at two
names. -/
theorem startsAtom_congr {c : Char} {t t' : List Char} (hhead : c = '\\' → t'.head? = t.head?)
    (hright : atCommand "right".toList (c :: t') = atCommand "right".toList (c :: t))
    (hend : atCommand "end".toList (c :: t') = atCommand "end".toList (c :: t)) :
    startsAtom (c :: t') = startsAtom (c :: t) := by
  rw [startsAtom, startsAtom, hright, hend]
  by_cases hc : c = '\\'
  · rw [hhead hc]
  · rw [beq_eq_false_iff_ne.mpr hc, Bool.false_and, Bool.false_and]

/-- Where `startsAtom` holds, an atom is read with one level less for what stands in it. -/
theorem read_atomReader_succ (levels : Nat) {s : List Char} (h : startsAtom s = true) :
    (atomReader (levels + 1)).read s = some (readAtomBody (atomReader levels) s) :=
  if_pos h

/-- Where `startsAtom` fails no atom is read, however many levels are left. -/
theorem read_of_not_startsAtom (levels : Nat) {s : List Char} (h : startsAtom s = false) :
    (atomReader levels).read s = none := by
  have hne : ¬ startsAtom s = true := by simp [h]
  cases levels <;> exact if_neg hne

/-- Where no atom is read `startsAtom` fails, however many levels are left. -/
theorem startsAtom_eq_false_of_read {levels : Nat} {s : List Char}
    (h : (atomReader levels).read s = none) : startsAtom s = false := by
  cases hs : startsAtom s with
  | false => rfl
  | true => cases levels <;> cases (if_pos hs).symm.trans h

theorem readArgument_of_read {a : AtomReader} {s : List Char} {r : Reading Formula}
    (h : a.read (skipBlank s) = some r) : readArgument a s = r := by
  rw [readArgument, h]

end FormulaMarkup.Formula
