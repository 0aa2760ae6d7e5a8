import FormulaMarkup.Proofs.Formula.Steps

/-!
# FormulaMarkup — where an expression ends

An expression goes on until the input is at its end or at one of the stops that the construct
around it waits for.  A construct that has read its content therefore knows what comes next, and
what it consumes behind the content is all there is to say about how it is closed.

* **`Stop.StandsAt`** — what a stop looks like in the input, said character by character.
* **`Stop.anyAt_iff`** — looking for a stop finds exactly that.
* **`readExpression_end`** — an expression ends at the end of the input or at a stop.
* **`rest_of_groupEnd`** and its neighbours — what this means for each construct.
-/

namespace FormulaMarkup.Formula

open Source Text

/-! ## Stops in the input

The reader tests for a stop with prefixes and names.  As an inductive predicate the same stop gives
its characters when it is taken apart, which is how the cases below proceed. -/

/-- What a `Stop` looks like in the input.  The name of a command ends before the first character
that is no letter, and that of an environment is the text of the group after the command. -/
inductive Stop.StandsAt : Stop → List Char → Prop where
  | groupEnd (t : List Char) : StandsAt .groupEnd ('}' :: t)
  | bracketEnd (t : List Char) : StandsAt .bracketEnd (']' :: t)
  | column (t : List Char) : StandsAt .column ('&' :: t)
  | row (t : List Char) : StandsAt .row ('\\' :: '\\' :: t)
  | right (t : List Char) (hname : startsWithLetter t = false) :
      StandsAt .right ('\\' :: ("right".toList ++ t))
  | environmentEnd (t : List Char) (hname : startsWithLetter t = false) :
      StandsAt (.environmentEnd (readGroup t).1) ('\\' :: ("end".toList ++ t))

/-- Testing the first character is asking for a text that begins with it. -/
theorem head?_beq_some_iff {s : List Char} {c : Char} :
    (s.head? == some c) = true ↔ ∃ t, s = c :: t := by
  cases s with
  | nil => simp
  | cons d t => simp

/-- `readCommand` on the command that ends an environment gives its name, and the input behind
it. -/
theorem readCommand_end {t : List Char} (ht : startsWithLetter t = false) :
    readCommand ('\\' :: ("end".toList ++ t)) = ("end".toList, t) :=
  readCommand_letters (by decide) (by decide) ht

namespace Stop

/-- **Looking for one stop is looking at the characters of the input.** One case for each stop; the
last two are commands and rest on `atCommand_iff`. -/
theorem isAt_iff (stop : Stop) (s : List Char) : isAt s stop = true ↔ StandsAt stop s := by
  cases stop with
  | groupEnd =>
    rw [isAt, head?_beq_some_iff]
    exact ⟨fun ⟨t, h⟩ => h ▸ .groupEnd t, fun h => by cases h; exact ⟨_, rfl⟩⟩
  | bracketEnd =>
    rw [isAt, head?_beq_some_iff]
    exact ⟨fun ⟨t, h⟩ => h ▸ .bracketEnd t, fun h => by cases h; exact ⟨_, rfl⟩⟩
  | column =>
    rw [isAt, head?_beq_some_iff]
    exact ⟨fun ⟨t, h⟩ => h ▸ .column t, fun h => by cases h; exact ⟨_, rfl⟩⟩
  | row =>
    rw [isAt, List.isPrefixOf_iff_prefix]
    constructor
    · rintro ⟨t, rfl⟩
      exact .row t
    · intro h
      cases h with
      | row t => exact ⟨t, rfl⟩
  | right =>
    rw [isAt, atCommand_iff]
    constructor
    · rintro ⟨t, rfl, ht⟩
      exact .right t ht
    · intro h
      cases h with
      | right t ht => exact ⟨t, rfl, ht⟩
  | environmentEnd name =>
    -- the name in braces is read behind the command, on both sides
    rw [isAt, atEnvironmentEnd, Bool.and_eq_true, atCommand_iff, beq_iff_eq]
    constructor
    · rintro ⟨⟨t, rfl, ht⟩, hname⟩
      rw [readCommand_end ht] at hname
      exact hname ▸ .environmentEnd t ht
    · intro h
      cases h with
      | environmentEnd t ht => exact ⟨⟨t, rfl, ht⟩, by rw [readCommand_end ht]⟩

/-- The stop `.row` is found by its two characters. -/
theorem isAt_row_cons (c : Char) (t : List Char) :
    isAt (c :: t) .row = ('\\' == c && t.head? == some '\\') := by
  cases t with
  | nil => rfl
  | cons d t =>
    show ('\\' == c && ('\\' == d && true)) = ('\\' == c && d == '\\')
    rw [Bool.and_true, BEq.comm (a := d)]

/-- If each of some stops is found in both of two inputs or in neither, the same holds of
`Stop.anyAt`. -/
theorem anyAt_congr {stops : List Stop} {s s' : List Char}
    (h : ∀ stop ∈ stops, isAt s' stop = isAt s stop) : anyAt stops s' = anyAt stops s := by
  unfold anyAt
  rw [Bool.eq_iff_iff, List.any_eq_true, List.any_eq_true]
  refine exists_congr fun stop => and_congr_right fun hstop => ?_
  rw [h stop hstop]

/-- **A stop is found if and only if one of those that are waited for stands in front.** This is the
meaning of `Stop.anyAt`, in terms of `Stop.StandsAt`. -/
theorem anyAt_iff (stops : List Stop) (s : List Char) :
    anyAt stops s = true ↔ ∃ stop ∈ stops, StandsAt stop s := by
  simp only [anyAt, List.any_eq_true, isAt_iff]

end Stop

/-! ## The end of an expression

The loop over items can only end in two ways, and for a whole source, which waits for nothing, in
one. -/

/-- **Items are read up to the end of the input or up to a stop.** Induction on the items in the
order in which `readItems` reads them. -/
theorem readItems_end (a : AtomReader) (stops : List Stop) (s : List Char) :
    (readItems a stops s).rest = [] ∨ Stop.anyAt stops (readItems a stops s).rest = true := by
  fun_induction readItems a stops s with
  | case1 => exact .inl rfl
  | case2 s c t h hstop => exact .inr hstop
  | case3 s c t h hstop item ih => exact ih

/-- **An expression ends at the end of the input or at a stop**, since `readExpression` makes one
node of what `readItems` has read. -/
theorem readExpression_end (a : AtomReader) (stops : List Stop) (s : List Char) :
    (readExpression a stops s).rest = [] ∨
      ∃ stop ∈ stops, stop.StandsAt (readExpression a stops s).rest := by
  have h := readItems_end a stops s
  rw [Stop.anyAt_iff] at h
  exact h

/-- A whole source is read to its end, because `read` waits for no stop. -/
theorem rest_read (source : List Char) : (read source).rest = [] := by
  rcases readExpression_end (atomReader maxNesting) [] source with h | ⟨stop, hmem, _⟩
  · exact h
  · cases hmem

section Constructs

variable (a : AtomReader) (s : List Char)

/-- An expression that waits for `.groupEnd` is left at a brace or at the end of the input. -/
theorem rest_of_groupEnd : (readExpression a [.groupEnd] s).rest = [] ∨
    ∃ t, (readExpression a [.groupEnd] s).rest = '}' :: t := by
  refine (readExpression_end a [.groupEnd] s).imp_right ?_
  rintro ⟨stop, hmem, hstands⟩
  rw [List.mem_singleton.mp hmem] at hstands
  generalize (readExpression a [.groupEnd] s).rest = r at hstands
  cases hstands with
  | groupEnd t => exact ⟨t, rfl⟩

/-- An expression that waits for `.bracketEnd` is left at a bracket or at the end of the input. -/
theorem rest_of_bracketEnd : (readExpression a [.bracketEnd] s).rest = [] ∨
    ∃ t, (readExpression a [.bracketEnd] s).rest = ']' :: t := by
  refine (readExpression_end a [.bracketEnd] s).imp_right ?_
  rintro ⟨stop, hmem, hstands⟩
  rw [List.mem_singleton.mp hmem] at hstands
  generalize (readExpression a [.bracketEnd] s).rest = r at hstands
  cases hstands with
  | bracketEnd t => exact ⟨t, rfl⟩

/-- **A cell is left at the end of the input, at an ampersand, at a double backslash or at the end
of its environment**, which are its `cellStops`.  So the loop over the cells consumes something in
each turn, or is over. -/
theorem rest_of_cell (environment : List Char) :
    (readExpression a (cellStops environment) s).rest = [] ∨
      (∃ t, (readExpression a (cellStops environment) s).rest = '&' :: t) ∨
      (∃ t, (readExpression a (cellStops environment) s).rest = '\\' :: '\\' :: t) ∨
      atCommand "end".toList (readExpression a (cellStops environment) s).rest = true := by
  refine (readExpression_end a (cellStops environment) s).imp_right ?_
  rintro ⟨stop, hmem, hstands⟩
  simp only [cellStops, List.mem_cons, List.not_mem_nil, or_false] at hmem
  generalize (readExpression a (cellStops environment) s).rest = r at hstands
  -- one case for each of the three stops of a cell
  rcases hmem with rfl | rfl | rfl
  · cases hstands with
    | column t => exact .inl ⟨t, rfl⟩
  · cases hstands with
    | row t => exact .inr (.inl ⟨t, rfl⟩)
  · cases hstands with
    | environmentEnd t ht => exact .inr (.inr (atCommand_iff.mpr ⟨t, rfl, ht⟩))

end Constructs

end FormulaMarkup.Formula
