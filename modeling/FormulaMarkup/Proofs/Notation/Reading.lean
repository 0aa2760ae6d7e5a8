import FormulaMarkup.Convert
import FormulaMarkup.Proofs.Notation.Tokens

/-!
# FormulaMarkup — reading the notation

Whatever is written in the notation is read as the tree that it stands for.  Every construct is
read up to its own end, whatever the constructs around it wait for, because no atom begins with
something that ends an expression.

A construct can grow into what follows it: a word by a letter, a number by a digit.  What follows is
therefore either allowed by the `Ending` of the construct or is a place where an expression ends,
and both come up as hypotheses in the predicates below.

* **`Closes`** — the places where an expression ends.
* **`Expr.ReadBy`** and its neighbours — that a construct is read as its tree, whatever follows it.
-/

namespace FormulaMarkup.Notation

open Source Text Formula

/-! ## Where an expression ends

An expression is followed by nothing or by one of four characters.  With none of them does a token
go on, a script begin, or a blank come, which is all that the lemmas below say. -/

/-- An input at which an expression with these stops ends: it is empty, or one of the stops is there
and begins with a character that is no part of a word or a number. -/
def Closes (stops : List Stop) (s : List Char) : Prop :=
  s = [] ∨ ∃ c t, s = c :: t ∧ c ∈ ['}', ']', '&', '\\'] ∧ Stop.anyAt stops s = true

/-- An input at which no script begins, even after blanks. -/
def NoMarker (s : List Char) : Prop :=
  ∀ c t, skipBlank s = c :: t → ScriptKind.ofMarker? c = none

namespace Closes

/-- A stop that is there and begins with one of the four characters ends an expression. -/
theorem of_stop {stops : List Stop} {c : Char} (hc : c ∈ ['}', ']', '&', '\\']) {t : List Char}
    (stop : Stop) (hmem : stop ∈ stops) (hstop : stop.isAt (c :: t) = true) :
    Closes stops (c :: t) :=
  .inr ⟨c, t, rfl, hc, List.any_eq_true.mpr ⟨stop, hmem, hstop⟩⟩

/-- The body of a fence ends at the command `right` that closes it, if no letter makes its name
longer. -/
theorem of_right {s : List Char} (h : Ending.word.allows s = true) :
    Closes [.right] (command "right" ++ s) := by
  refine of_stop (by decide) .right List.mem_cons_self ?_
  have hat := atCommand_command "right" "right" (by decide) (by decide) h
  exact hat.trans (by decide)

/-- The body of an environment ends at the command `end`, with its own name. -/
theorem of_environmentEnd {stops : List Stop} {name : Group}
    (hmem : Stop.environmentEnd name.text ∈ stops) (gap : Blanks) (s : List Char) :
    Closes stops (command "end" ++ (gap.chars ++ (name.source ++ s))) := by
  refine of_stop (by decide) (.environmentEnd name.text) hmem ?_
  obtain ⟨hat, hread⟩ := readEnd_source gap name s
  show Stop.atEnvironmentEnd name.text (command "end" ++ (gap.chars ++ (name.source ++ s))) = true
  rw [Stop.atEnvironmentEnd, hat, hread, Bool.true_and]
  exact beq_self_eq_true name.text

variable {stops : List Stop} {s : List Char} (h : Closes stops s)
include h

/-- No blank stands where an expression ends. -/
theorem skipBlank_eq : skipBlank s = s := by
  rcases h with rfl | ⟨c, t, rfl, hc, _⟩
  · rfl
  · have hblank : ∀ c ∈ ['}', ']', '&', '\\'], isBlank c = false := by decide
    exact skipBlank_cons (hblank c hc) t

/-- No token grows into what ends an expression. -/
theorem allows (e : Ending) : e.allows s = true := by
  rcases h with rfl | ⟨c, t, rfl, hc, _⟩
  · rfl
  · have hbreaks : ∀ c ∈ ['}', ']', '&', '\\'], breaks c = true := by decide
    exact e.allows_cons (hbreaks c hc) t

/-- Whether a token may be followed by something does not depend on what ends the expression. -/
theorem allows_append (e : Ending) (x : List Char) : e.allows (x ++ s) = e.allows x := by
  cases x with
  | nil => exact h.allows e
  | cons c x => rfl

/-- No script begins where an expression ends. -/
theorem noMarker : NoMarker s := by
  intro c t hs
  rw [h.skipBlank_eq] at hs
  rcases h with rfl | ⟨c', t', rfl, hc, _⟩
  · cases hs
  · have hmarker : ∀ c ∈ ['}', ']', '&', '\\'], ScriptKind.ofMarker? c = none := by decide
    obtain ⟨rfl, rfl⟩ := List.cons.inj hs
    exact hmarker c' hc

/-- `readItems` reads nothing where an expression ends, and consumes nothing. -/
theorem readItems_eq (a : AtomReader) : readItems a stops s = ⟨[], s, []⟩ := by
  have hskip := h.skipBlank_eq
  rcases h with rfl | ⟨c, t, rfl, _, hstop⟩
  · exact readItems_of_nil a stops hskip
  · exact readItems_of_stop a hskip hstop

end Closes

/-! ## What it means to be read

There is one predicate for each sort of the notation.  Each says that the reader answers with the
tree, leaves exactly what follows, and logs what the construct logs. -/

/-- Where the scripts of a base go is not yet decided when a formula is read. -/
abbrev unplaced : Bool → Unit := fun _ => ()

/-- The atom is read as its tree, whatever follows it without making it longer (`Ending.allows`). -/
def Atom.ReadBy (a : AtomReader) (x : Atom) : Prop :=
  ∀ rest, x.ending.allows rest = true →
    Begins (x.source ++ rest) ∧
      a.read (x.source ++ rest) = some ⟨x.tree id unplaced, rest, x.log⟩

/-- The atom is read as its tree once the blanks before it are gone, as `readArgument` reads it. -/
def Argument.ReadBy (a : AtomReader) (x : Argument) : Prop :=
  ∀ rest, x.ending.allows rest = true →
    Begins (skipBlank (x.source ++ rest)) ∧
      a.read (skipBlank (x.source ++ rest)) = some ⟨x.tree id unplaced, rest, x.log⟩

/-- `readScripts` reads the scripts after any base, if no other script follows them. -/
def Scripts.ReadBy (a : AtomReader) (x : Scripts) : Prop :=
  ∀ base ending rest, (x.endingAfter ending).allows rest = true → NoMarker rest →
    readScripted a base (x.source ++ rest)
      = ⟨x.attach id unplaced base, skipBlank rest, x.log⟩

/-- `readItems` reads the items up to any stop, and the first of them begins with no script. -/
def Expr.ReadBy (a : AtomReader) (x : Expr) : Prop :=
  ∀ stops rest, Closes stops rest →
    NoMarker (x.source ++ rest) ∧
      readItems a stops (x.source ++ rest) = ⟨x.items id unplaced, rest, x.log⟩

theorem Expr.ReadBy.readExpression_eq {a : AtomReader} {x : Expr} (h : x.ReadBy a)
    {stops : List Stop} {rest : List Char} (hrest : Closes stops rest) :
    readExpression a stops (x.source ++ rest) = ⟨x.tree id unplaced, rest, x.log⟩ := by
  rw [readExpression, (h stops rest hrest).2]
  rfl

theorem Argument.ReadBy.readArgument_eq {a : AtomReader} {x : Argument} (h : x.ReadBy a)
    (rest : List Char) (hrest : x.ending.allows rest = true) :
    readArgument a (x.source ++ rest) = ⟨x.tree id unplaced, rest, x.log⟩ :=
  readArgument_of_read (h rest hrest).2

end FormulaMarkup.Notation
