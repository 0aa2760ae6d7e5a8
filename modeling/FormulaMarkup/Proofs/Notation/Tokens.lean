import FormulaMarkup.Proofs.Formula.Steps
import FormulaMarkup.Proofs.Notation.Syntax

/-!
# FormulaMarkup — the tokens of the notation

How the tokens of the notation are read, whatever follows them, as long as it does not make them
longer.  The text behind a token is always arbitrary here, and what is asked of it is
`Ending.allows`, so that the lemmas can be used in the middle of any source.

* **`Ending.allows_blanks`** — blanks and punctuation make no token longer.
* **`readCommand_command`** — the name of a command is read in full.
* **`Begins`** — what every atom begins with, which is no end of anything.
* **`readDelimiter_source`**, **`readGroup_source`** — fences and groups.
-/

namespace FormulaMarkup.Notation

open Source Text Formula

/-! ## Endings

What may follow a token is decided by one character.  Nothing but letters, digits and a period makes
any token longer, so most of what follows one is allowed whatever the token is. -/

/-- `Ending.allows` looks at the front of what follows only, if there is anything. -/
theorem Ending.allows_append (e : Ending) {s : List Char} (h : s ≠ []) (r : List Char) :
    e.allows (s ++ r) = e.allows s := by
  obtain ⟨c, s, rfl⟩ := List.exists_cons_of_ne_nil h
  rfl

/-- Whether a character makes no token longer. -/
def breaks (c : Char) : Bool := !c.isAlpha && !c.isDigit && c != '.'

/-- A character that makes no token longer may follow every token. -/
theorem Ending.allows_cons (e : Ending) {c : Char} (h : breaks c = true) (s : List Char) :
    e.allows (c :: s) = true := by
  simp only [breaks, Bool.and_eq_true, Bool.not_eq_true', bne_iff_ne, ne_eq] at h
  obtain ⟨⟨halpha, hdigit⟩, hperiod⟩ := h
  cases e <;> simp [Ending.allows, Ending.grows, halpha, hdigit, hperiod]

/-- A blank makes no token longer. -/
theorem breaks_of_isBlank {c : Char} (h : isBlank c = true) : breaks c = true := by
  -- the three kinds of characters exclude each other
  have halpha : c.isAlpha = false := by
    cases ha : c.isAlpha with
    | false => rfl
    | true =>
      rw [isBlank_eq_false_of_isAlpha ha] at h
      cases h
  have hdigit : c.isDigit = false := by
    cases hd : c.isDigit with
    | false => rfl
    | true =>
      rw [isBlank_eq_false_of_isDigit hd] at h
      cases h
  have hperiod : c ≠ '.' := by
    rintro rfl
    revert h
    decide
  simp [breaks, halpha, hdigit, hperiod]

/-- Blanks before something that makes no token longer change nothing about that. -/
theorem Ending.allows_blanks (e : Ending) (gap : Blanks) {c : Char} (h : breaks c = true)
    (s : List Char) : e.allows (gap.chars ++ c :: s) = true := by
  -- the next character is the first blank, or what follows if there is none
  cases hgap : gap.chars with
  | nil => exact e.allows_cons h s
  | cons b bs =>
    have hb : isBlank b = true := gap.blank b (by rw [hgap]; exact List.mem_cons_self)
    exact e.allows_cons (breaks_of_isBlank hb) _

/-- What may follow a word does not start with a letter. -/
theorem startsWithLetter_eq_false {s : List Char} (h : Ending.word.allows s = true) :
    startsWithLetter s = false := by
  cases s with
  | nil => rfl
  | cons c s => simpa [Ending.allows, Ending.grows, startsWithLetter] using h

theorem Ending.ofCommand_letters {name : String} (h : isLetterName name = true) :
    Ending.ofCommand name = .word :=
  if_pos h

/-! ## Commands

A name that is written is read again, and looking for a name finds it.  Both are the general lemmas
about names, with the conditions in terms of the notation. -/

theorem skipBlank_blanks (gap : Blanks) (s : List Char) :
    skipBlank (gap.chars ++ s) = skipBlank s :=
  skipBlank_append gap.blank s

/-- **`readCommand` reads the name of a command in full** if what follows does not make it
longer. -/
theorem readCommand_command (name : String) (hname : isCommandName name = true)
    {s : List Char} (h : (Ending.ofCommand name).allows s = true) :
    readCommand (command name ++ s) = (name.toList, s) := by
  cases hl : isLetterName name with
  | true =>
    rw [Ending.ofCommand_letters hl] at h
    obtain ⟨hne, halpha⟩ := isLetterName_iff.mp hl
    exact readCommand_letters hne halpha (startsWithLetter_eq_false h)
  | false =>
    -- a single character, which is no letter
    simp only [isCommandName, hl, Bool.false_or, beq_iff_eq] at hname
    obtain ⟨c, hc⟩ := List.length_eq_one_iff.mp hname
    have halpha : c.isAlpha = false := by simpa [isLetterName, hc] using hl
    rw [command, hc]
    exact readCommand_single halpha s

/-- `atCommand` compares its name with that of the command that is there, if what follows does not
make the name longer. -/
theorem atCommand_command (name other : String) (hname : isCommandName name = true)
    (hother : isLetterName other = true) {s : List Char}
    (h : (Ending.ofCommand name).allows s = true) :
    atCommand other.toList (command name ++ s) = (name == other) := by
  obtain ⟨hne, halpha⟩ := isLetterName_iff.mp hother
  have hread := readCommand_command name hname h
  rw [command, List.cons_append] at hread ⊢
  rw [atCommand_eq_readCommand hne halpha, hread]
  exact Bool.eq_iff_iff.mpr (by simp [String.toList_inj])

/-! ## Where an atom begins

An atom begins with a character that is not reserved, with a brace, or with a command.  In all three
cases no blank, no script and no stop stands there, and this is why an item is read wherever one is
written. -/

/-- An input at whose front an atom stands.  Brackets are atoms for the reader, but not for the
notation, which keeps them for the index of a radical. -/
structure Begins (s : List Char) : Prop where
  starts : startsAtom s = true
  head : ∃ c t, s = c :: t ∧ isBlank c = false ∧ c ≠ '[' ∧ c ≠ ']'

namespace Begins

/-- An atom begins with any character that is not `reserved`. -/
theorem of_free {c : Char} (hblank : isBlank c = false) (hfree : c ∉ reserved) (t : List Char) :
    Begins (c :: t) := by
  simp only [reserved, List.mem_cons, List.not_mem_nil, or_false, not_or] at hfree
  obtain ⟨h₁, h₂, h₃, h₄, h₅, h₆, h₇, h₈⟩ := hfree
  exact ⟨by simp [startsAtom, h₁, h₃, h₄, h₅, h₆], c, t, rfl, hblank, h₇, h₈⟩

theorem of_brace (t : List Char) : Begins ('{' :: t) :=
  ⟨rfl, '{', t, rfl, by decide, by decide, by decide⟩

/-- An atom begins with a command, unless the command ends something: a row, a fence or an
environment.  These are the names that `isAtomName` excludes. -/
theorem of_command {name : String} (hname : isAtomName name = true) {s : List Char}
    (h : (Ending.ofCommand name).allows s = true) : Begins (command name ++ s) := by
  simp only [isAtomName, Bool.and_eq_true, Bool.not_eq_true', List.contains_eq_mem,
    decide_eq_false_iff_not, List.mem_cons, List.not_mem_nil, or_false, not_or] at hname
  obtain ⟨hcommand, hslash, hright, hend⟩ := hname
  have hatRight : atCommand "right".toList (command name ++ s) = false := by
    rw [atCommand_command name _ hcommand (by decide) h]
    simpa using hright
  have hatEnd : atCommand "end".toList (command name ++ s) = false := by
    rw [atCommand_command name _ hcommand (by decide) h]
    simpa using hend
  -- after two backslashes the name would be a backslash
  have hhead : (name.toList ++ s).head? ≠ some '\\' := by
    intro hs
    obtain ⟨t, ht⟩ := List.head?_eq_some_iff.mp hs
    have hread := readCommand_command name hcommand h
    rw [command, List.cons_append, ht, readCommand_single (by decide)] at hread
    refine hslash (String.toList_inj.mp ?_)
    exact (congrArg Prod.fst hread).symm
  refine ⟨?_, '\\', name.toList ++ s, rfl, by decide, by decide, by decide⟩
  rw [command, List.cons_append] at hatRight hatEnd ⊢
  rw [startsAtom, hatRight, hatEnd, beq_eq_false_iff_ne.mpr hhead]
  rfl

variable {s : List Char} (h : Begins s)
include h

theorem skipBlank_eq : skipBlank s = s := by
  obtain ⟨c, t, rfl, hblank, _⟩ := h.head
  exact skipBlank_cons hblank t

/-- No script begins where an atom begins. -/
theorem not_marker {c : Char} {t : List Char} (hs : s = c :: t) :
    ScriptKind.ofMarker? c = none := by
  have hstarts := h.starts
  subst hs
  have hsub : c ≠ '_' := by
    rintro rfl
    simp [startsAtom] at hstarts
  have hsup : c ≠ '^' := by
    rintro rfl
    simp [startsAtom] at hstarts
  simp [ScriptKind.ofMarker?, hsub, hsup]

/-- **No expression ends where an atom begins**, whatever it waits for.  One case for each stop, and
each of them excluded by `startsAtom` or by the bracket. -/
theorem not_anyAt (stops : List Stop) : Stop.anyAt stops s = false := by
  have hstarts := h.starts
  obtain ⟨c, t, rfl, _, _, hbracket⟩ := h.head
  simp only [startsAtom, Bool.not_eq_true', Bool.or_eq_false_iff, beq_eq_false_iff_ne, ne_eq,
    Bool.and_eq_false_imp, beq_iff_eq] at hstarts
  obtain ⟨⟨⟨⟨hbrace, _⟩, _⟩, hampersand⟩, hslash⟩ := hstarts
  -- neither of the two commands that end something is there
  have hcommand : ∀ name, name = "right".toList ∨ name = "end".toList →
      atCommand name (c :: t) = false := by
    intro name hname
    by_cases hc : c = '\\'
    · rcases hname with rfl | rfl
      · exact (hslash hc).1.2
      · exact (hslash hc).2
    · exact atCommand_eq_false hc t
  refine List.any_eq_false.mpr fun stop _ => ?_
  rw [Bool.not_eq_true]
  cases stop with
  | groupEnd => simpa [Stop.isAt] using hbrace
  | bracketEnd => simpa [Stop.isAt] using hbracket
  | column => simpa [Stop.isAt] using hampersand
  | row =>
    cases t with
    | nil => simp [Stop.isAt, List.isPrefixOf]
    | cons d t =>
      by_cases hc : c = '\\'
      · have hd : d ≠ '\\' := by simpa using (hslash hc).1.1
        simp [Stop.isAt, List.isPrefixOf, Ne.symm hd]
      · simp [Stop.isAt, List.isPrefixOf, Ne.symm hc]
  | right => exact hcommand _ (.inl rfl)
  | environmentEnd name =>
    rw [Stop.isAt, Stop.atEnvironmentEnd, hcommand _ (.inr rfl), Bool.false_and]

end Begins

/-- Where an atom begins with a command, `readCommandBody` decides what is read. -/
theorem read_command (levels : Nat) (name : String) (hname : isAtomName name = true)
    {s : List Char} (h : (Ending.ofCommand name).allows s = true) :
    (atomReader (levels + 1)).read (command name ++ s)
      = some (readCommandBody (atomReader levels) (.ofName name) s) := by
  have hcommand : isCommandName name = true := (Bool.and_eq_true_iff.mp hname).1
  have hread := readCommand_command name hcommand h
  rw [read_atomReader_succ levels (Begins.of_command hname h).starts]
  rw [command, List.cons_append] at hread ⊢
  rw [readAtomBody_of_readCommand _ hread]

/-! ## Fences and groups

Fences, groups and the end of an environment are read with the blanks before them. -/

/-- `readDelimiter` reads a fence as its glyph, if nothing makes its name longer.  One case for a
character and one for a command with a name. -/
theorem readDelimiter_source (gap : Blanks) (d : Delimiter) {s : List Char}
    (h : d.ending.allows s = true) :
    readDelimiter (gap.chars ++ (d.source ++ s)) = (d.glyph, s) := by
  rw [readDelimiter, skipBlank_blanks]
  cases d with
  | literal c hblank hplain =>
    -- a character by itself, with a period for no fence
    rw [show (Delimiter.literal c hblank hplain).source ++ s = c :: s from rfl,
      skipBlank_cons hblank]
    have hperiod : String.singleton c = "." ↔ c = '.' := by
      rw [← String.toList_inj]
      simp
    split
    · next hnil => cases hnil
    · next hcons => exact absurd (List.cons.inj hcons).1 hplain
    · next hcons =>
      obtain ⟨rfl, rfl⟩ := List.cons.inj hcons
      simp only [literalDelimiter, Delimiter.glyph, hperiod]
  | named name glyph known =>
    -- a command, whose name is read in full and found
    have hread := readCommand_command name (isCommandName_of_namedDelimiter known) h
    rw [show (Delimiter.named name glyph known).source ++ s = '\\' :: (name.toList ++ s) from rfl,
      skipBlank_cons (by decide)]
    rw [command, List.cons_append] at hread
    simp only [hread, String.ofList_toList, known, Delimiter.glyph]

/-- `readGroup` reads a group as its text. -/
theorem readGroup_source (gap : Blanks) (g : Group) (s : List Char) :
    readGroup (gap.chars ++ (g.source ++ s)) = (g.text, s) := by
  have hsource : g.source ++ s = '{' :: (g.text ++ '}' :: s) := by
    simp [Group.source]
  rw [hsource]
  exact readGroup_balanced gap.blank g.balanced s

/-- The command that ends an environment, with the blanks and the name after it. -/
theorem readEnd_source (gap : Blanks) (name : Group) (s : List Char) :
    atCommand "end".toList (command "end" ++ (gap.chars ++ (name.source ++ s))) = true ∧
      readGroup (readCommand (command "end" ++ (gap.chars ++ (name.source ++ s)))).2
        = (name.text, s) := by
  have hword : (Ending.ofCommand "end").allows (gap.chars ++ (name.source ++ s)) = true :=
    Ending.allows_blanks _ gap (by decide) _
  rw [atCommand_command "end" "end" (by decide) (by decide) hword,
    readCommand_command "end" (by decide) hword, readGroup_source]
  exact ⟨by decide, rfl⟩

end FormulaMarkup.Notation
