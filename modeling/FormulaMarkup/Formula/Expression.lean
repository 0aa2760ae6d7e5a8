import FormulaMarkup.Formula.Scripts
import FormulaMarkup.Formula.Stop

/-!
# FormulaMarkup — expressions

An expression is a run of items up to one of the tokens that the construct around it waits for.
An item is an atom with its scripts, or else a token that nothing waits for, which is consumed in
any case, so that reading an expression comes to an end on every input.

* **`readStray`** — what a token that nothing waits for stands for.
* **`readItems`** — the items up to a stop.
* **`readExpression`** — the items as one node.
-/

namespace FormulaMarkup.Formula

open Source Text

/-- Consumes a token that nothing waits for.  Scripts without a base stand on an empty row, an
ampersand is an operator and a double backslash a line break; an end of an environment is dropped
with its name, and any other token alone. -/
def readStray (a : AtomReader) : List Char → Reading (Option Formula)
  | [] => ⟨none, [], []⟩
  | c :: t =>
    match ScriptKind.ofMarker? c with
    | some _ => (readScripted a .emptyRow (c :: t)).map some
    | none =>
      if c = '&' then ⟨some (.operator "&" false), t, []⟩
      else if c = '\\' then
        match t with
        | '\\' :: t => ⟨some .lineBreak, t, []⟩
        | t =>
          if atCommand "end".toList (c :: t) then
            let name := readGroup (readCommand (c :: t)).2
            ⟨none, name.2, [.strayEnd name.1]⟩
          -- a closing fence: what comes after it is ordinary content
          else ⟨none, (readCommand (c :: t)).2, []⟩
      -- a closing brace
      else ⟨none, t, []⟩

/-- The next item: an atom with its scripts (`readScripted`), or what a stray token stands for, if
anything. -/
def readItem (a : AtomReader) (s : List Char) : Reading (Option Formula) :=
  match a.read s with
  | some atom => ((readScripted a atom.value atom.rest).map some).after atom.log
  | none => readStray a s

/-- What starts no atom is taken with one character at least. -/
theorem readStray_consumes (a : AtomReader) (c : Char) (t : List Char) :
    (readStray a (c :: t)).rest <:+ c :: t ∧
      (readStray a (c :: t)).rest.length < (c :: t).length := by
  simp only [readStray]
  split
  · next kind hc =>
    exact ⟨readScripts_suffix a .none (c :: t),
      readScripts_length_lt a hc (isBlank_eq_false_of_ofMarker? hc) t⟩
  · split
    · exact ⟨List.suffix_cons c t, by simp⟩
    · split
      · next hc =>
        subst hc
        split
        · exact ⟨(List.suffix_cons _ _).trans (List.suffix_cons _ _), by
            simp only [List.length_cons]; omega⟩
        · have hs := readCommand_suffix ('\\' :: t)
          have hl := readCommand_length_lt t
          split
          · have hg := readGroup_suffix (readCommand ('\\' :: t)).2
            exact ⟨hg.trans hs, Nat.lt_of_le_of_lt hg.length_le hl⟩
          · exact ⟨hs, hl⟩
      · exact ⟨List.suffix_cons c t, by simp⟩

/-- **An item consumes at least one character**, be it an atom or a stray.  On this the recursion of
`readItems` rests. -/
theorem readItem_consumes (a : AtomReader) (c : Char) (t : List Char) :
    (readItem a (c :: t)).rest <:+ c :: t ∧
      (readItem a (c :: t)).rest.length < (c :: t).length := by
  unfold readItem
  split
  · next atom h =>
    have hs := readScripts_suffix a .none atom.rest
    have hl := hs.length_le
    have ha := a.consumes h
    exact ⟨hs.trans ha.1, Nat.lt_of_le_of_lt hl ha.2⟩
  · exact readStray_consumes a c t

/-- Reads items until the input ends or one of the stops comes up.  Blanks before the end or the
stop are gone. -/
def readItems (a : AtomReader) (stops : List Stop) (s : List Char) : Reading (List Formula) :=
  match _h : skipBlank s with
  | [] => ⟨[], [], []⟩
  | c :: t =>
    if Stop.anyAt stops (c :: t) then ⟨[], c :: t, []⟩
    else
      let item := readItem a (c :: t)
      ((readItems a stops item.rest).map (item.value.toList ++ ·)).after item.log
termination_by s.length
decreasing_by
  have h₁ := (readItem_consumes a c t).2
  have h₂ := (skipBlank_suffix s).length_le
  rw [_h] at h₂
  omega

/-- What is left behind items is a suffix. -/
theorem readItems_suffix (a : AtomReader) (stops : List Stop) (s : List Char) :
    (readItems a stops s).rest <:+ s := by
  fun_induction readItems a stops s with
  | case1 => exact List.nil_suffix
  | case2 s c t h => exact h ▸ skipBlank_suffix s
  | case3 s c t h _ item ih =>
    exact ih.trans ((readItem_consumes a c t).1.trans (h ▸ skipBlank_suffix s))

/-- Reads an expression.  A single item stands for itself, everything else for a row
(`Node.ofItems`). -/
def readExpression (a : AtomReader) (stops : List Stop) (s : List Char) : Reading Formula :=
  (readItems a stops s).map Node.ofItems

/-- What is left behind an expression is a suffix. -/
theorem readExpression_suffix (a : AtomReader) (stops : List Stop) (s : List Char) :
    (readExpression a stops s).rest <:+ s :=
  readItems_suffix a stops s

end FormulaMarkup.Formula
