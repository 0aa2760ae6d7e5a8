import FormulaMarkup.Proofs.Notation.Reading

/-!
# FormulaMarkup — reading one atom

One lemma for each kind of atom: if its parts are read as their trees, it is read as its own.  None
of them looks into the parts, so the lemmas can be put together by an induction over the constructs.
Tables, whose cells are a run of their own, come with the runs.

Each proof goes the same way.  The command is read in full because of what the atom allows to follow
it, and then each part is read up to where the next one begins or the atom ends.

* **`readBy_numeral`**, **`readBy_letters`**, **`readBy_ordinary`**, **`readBy_named`** — tokens.
* **`begins_and_read`** — an atom that begins with a command is what the command reads.
* **`readBy_fraction`**, **`readBy_fenced`**, **`readBy_environment`** and their neighbours — atoms
  with parts.
-/

namespace FormulaMarkup.Notation

open Source Text Formula

/-! ## Tokens

A number, a word and an operator begin with a character that is not reserved, and the kind of this
character decides which routine reads on. -/

/-- Neither digits nor letters are `reserved`. -/
theorem not_mem_reserved {c : Char} (h : c.isDigit = true ∨ c.isAlpha = true) :
    c ∉ reserved := by
  have hall : ∀ c ∈ reserved, c.isDigit = false ∧ c.isAlpha = false := by decide
  intro hmem
  rcases h with h | h
  · rw [(hall c hmem).1] at h
    cases h
  · rw [(hall c hmem).2] at h
    cases h

/-- Where an atom begins with a character that is not `reserved`, the kind of the character decides
what is read. -/
theorem begins_and_read_free (levels : Nat) {c : Char} (hblank : isBlank c = false)
    (hfree : c ∉ reserved) {s t : List Char} (hs : s = c :: t) {r : Reading Formula}
    (hr : (if c.isDigit then readNumber s else if c.isAlpha then readIdentifier s
      else ⟨.operator (String.singleton c) false, t, []⟩) = r) :
    Begins s ∧ (atomReader (levels + 1)).read s = some r := by
  subst hs
  have hbegins : Begins (c :: t) := .of_free hblank hfree t
  refine ⟨hbegins, ?_⟩
  simp only [reserved, List.mem_cons, List.not_mem_nil, or_false, not_or] at hfree
  obtain ⟨hslash, hbrace, _⟩ := hfree
  rw [read_atomReader_succ levels hbegins.starts, ← hr]
  simp only [readAtomBody, hslash, hbrace, if_false]

/-- **`readNumber` reads a numeral in full**: neither a digit nor, without decimals, a period
follows.  Both runs of digits end where `takeWhile_run` says. -/
theorem readNumber_numeral (n : Numeral) {rest : List Char}
    (h : (Atom.numeral n).ending.allows rest = true) :
    readNumber (n.chars ++ rest) = ⟨.number (String.ofList n.chars), rest, []⟩ := by
  have hdecimals := n.decimals_digits
  cases hn : n.decimals with
  | none =>
    -- neither a digit nor a period follows
    have hrest : ∀ c t, rest = c :: t → c.isDigit = false ∧ c ≠ '.' := by
      rintro c t rfl
      simpa [Atom.ending, hn, Ending.allows, Ending.grows] using h
    have hrun := takeWhile_run n.digits fun c t hc => (hrest c t hc).1
    simp only [Numeral.chars, hn, Option.map_none, Option.getD_none, List.append_nil, readNumber,
      hrun.1, hrun.2]
    split
    · next t => exact absurd rfl (hrest '.' t rfl).2
    · rfl
  | some d =>
    -- the first run ends at the period and the second one at what follows
    have hrest : ∀ c t, rest = c :: t → c.isDigit = false := by
      rintro c t rfl
      simpa [Atom.ending, hn, Ending.allows, Ending.grows] using h
    have hwhole : ∀ c t, '.' :: (d ++ rest) = c :: t → c.isDigit = false := by
      intro c t hc
      obtain ⟨rfl, _⟩ := List.cons.inj hc
      decide
    have hrun := takeWhile_run n.digits hwhole
    have hrun' := takeWhile_run (fun c hc => hdecimals c (by rwa [hn])) hrest
    simp only [Option.getD_some] at hrun'
    simp only [Numeral.chars, hn, Option.map_some, Option.getD_some, List.append_assoc,
      List.cons_append, readNumber, hrun.1, hrun.2, hrun'.1, hrun'.2]

/-- A `Numeral` is read as its text. -/
theorem readBy_numeral (levels : Nat) (n : Numeral) :
    (Atom.numeral n).ReadBy (atomReader (levels + 1)) := by
  intro rest hrest
  have hread := readNumber_numeral n hrest
  obtain ⟨c, w, hw⟩ := List.exists_cons_of_ne_nil n.nonempty
  have hdigit : c.isDigit = true := n.digits c (by rw [hw]; exact List.mem_cons_self)
  obtain ⟨t, ht⟩ : ∃ t, (Atom.numeral n).source ++ rest = c :: t :=
    ⟨_, by rw [Atom.source, Numeral.chars, hw]; rfl⟩
  refine begins_and_read_free levels (isBlank_eq_false_of_isDigit hdigit)
    (not_mem_reserved (.inl hdigit)) ht ?_
  rw [hdigit, if_pos rfl, Atom.source, hread]
  rfl

/-- A run of `Letters` is read as one identifier, if no further letter follows. -/
theorem readBy_letters (levels : Nat) (l : Letters) :
    (Atom.letters l).ReadBy (atomReader (levels + 1)) := by
  intro rest hrest
  have hend : ∀ c t, rest = c :: t → c.isAlpha = false := by
    rintro c t rfl
    simpa [Atom.ending, Ending.allows, Ending.grows] using hrest
  -- the run ends where the letters end, because what follows is no letter
  have hrun := takeWhile_run l.alpha hend
  obtain ⟨c, w, hw⟩ := List.exists_cons_of_ne_nil l.nonempty
  have halpha : c.isAlpha = true := l.alpha c (by rw [hw]; exact List.mem_cons_self)
  have hdigit : c.isDigit = false := isDigit_eq_false_of_isAlpha halpha
  -- its first character is a letter, which tells the kind of the atom
  obtain ⟨t, ht⟩ : ∃ t, (Atom.letters l).source ++ rest = c :: t :=
    ⟨_, by rw [Atom.source, hw]; rfl⟩
  refine begins_and_read_free levels (isBlank_eq_false_of_isAlpha halpha)
    (not_mem_reserved (.inr halpha)) ht ?_
  rw [hdigit, if_neg Bool.false_ne_true, halpha, if_pos rfl, Atom.source, readIdentifier, hrun.1,
    hrun.2]
  rfl

/-- Any other character that is not `reserved` is read as an operator. -/
theorem readBy_ordinary (levels : Nat) (o : Ordinary) :
    (Atom.ordinary o).ReadBy (atomReader (levels + 1)) := by
  intro rest _
  refine begins_and_read_free levels o.blank o.free (t := rest) rfl ?_
  rw [o.digit, if_neg Bool.false_ne_true, o.alpha, if_neg Bool.false_ne_true]
  rfl

/-! ## Commands

A command without an argument is read where its name ends.  One that changes its argument reads the
argument behind its name. -/

/-- Where an atom begins with a command, what `readCommandBody` reads is the atom. -/
theorem begins_and_read (levels : Nat) (name : String) (hname : isAtomName name = true)
    (s : List Char) {t : List Char} (ht : t = command name ++ s)
    (h : (Ending.ofCommand name).allows s = true) {r : Reading Formula}
    (hr : readCommandBody (atomReader levels) (.ofName name) s = r) :
    Begins t ∧ (atomReader (levels + 1)).read t = some r := by
  subst ht
  exact ⟨.of_command hname h, by rw [read_command levels name hname h, hr]⟩

/-- The commands of the notation that take no argument stand at the front of an atom. -/
theorem Named.isAtomName_name (c : Named) : isAtomName c.name = true := by
  cases c with
  | symbol name symbol known =>
    obtain ⟨hletters, hname, _⟩ := symbolNames_facts name (mem_symbolNames known)
    exact isAtomName_of_letters hletters hname
  | escaped name known =>
    have hall : ∀ name ∈ escapedLiterals, isAtomName name = true := by decide
    exact hall name known
  | space name => cases name <;> decide
  | unknown name letters unknown =>
    simp only [isUnknownName, Bool.and_eq_true, Bool.not_eq_true'] at unknown
    exact isAtomName_of_letters letters unknown.1.1.1

/-- `readCommandBody` reads a command without an argument as its node and consumes nothing behind
its name. -/
theorem Named.readCommandBody_name (a : AtomReader) (c : Named) (s : List Char) :
    readCommandBody a (.ofName c.name) s = ⟨c.node id, s, c.log⟩ := by
  cases c with
  | symbol name symbol known =>
    rw [Named.name, ofName_symbol known]
    cases symbol <;> rfl
  | escaped name known =>
    rw [Named.name, ofName_escaped known]
    rfl
  | space name => cases name <;> rfl
  | unknown name letters unknown =>
    rw [Named.name, ofName_unknown letters unknown]
    rfl

/-- A command without an argument is read in full. -/
theorem readBy_named (levels : Nat) (c : Named) :
    (Atom.named c).ReadBy (atomReader (levels + 1)) := by
  intro rest hrest
  have hread := c.readCommandBody_name (atomReader levels) rest
  exact begins_and_read levels c.name c.isAtomName_name rest rfl hrest hread

/-- The commands that change their argument stand at the front of an atom. -/
theorem Modifier.isAtomName_name (m : Modifier) : isAtomName m.name = true := by
  cases m with
  | accent name glyph position known =>
    obtain ⟨hletters, hname, _⟩ := accentNames_facts name (mem_of_lookup known)
    exact isAtomName_of_letters hletters hname
  | styled name variant known =>
    obtain ⟨hletters, hname⟩ := variantNames_facts name (mem_of_lookup known)
    exact isAtomName_of_letters hletters hname
  | phantom => decide

/-- The commands that change their argument have names of letters. -/
theorem Modifier.ofCommand_name (m : Modifier) : Ending.ofCommand m.name = .word := by
  refine Ending.ofCommand_letters ?_
  cases m with
  | accent name glyph position known => exact (accentNames_facts name (mem_of_lookup known)).1
  | styled name variant known => exact (variantNames_facts name (mem_of_lookup known)).1
  | phantom => decide

/-- `readCommandBody` reads the argument of such a command and puts the node of the command around
it. -/
theorem Modifier.readCommandBody_name (a : AtomReader) (m : Modifier) (s : List Char) :
    readCommandBody a (.ofName m.name) s = (readArgument a s).map fun body => m.apply body := by
  cases m with
  | accent name glyph position known =>
    rw [Modifier.name, ofName_accent known]
    rfl
  | styled name variant known =>
    rw [Modifier.name, ofName_variant known]
    rfl
  | phantom => rfl

/-! ## Atoms with parts

The parts of an atom are read one level further down.  Where one part ends and the next one begins
is known from `Begins` and from the `Ending` of the first. -/

/-- The text of an atom is not empty. -/
theorem Atom.source_ne_nil (x : Atom) : x.source ≠ [] := by
  cases x with
  | numeral n => simp [Atom.source, Numeral.chars, n.nonempty]
  | letters l => exact l.nonempty
  | _ => simp [Atom.source, command]

theorem Argument.source_ne_nil (x : Argument) : x.source ≠ [] := by
  cases x with
  | mk gap atom => simp [Argument.source, atom.source_ne_nil]

/-- What an argument allows to stand before it does not depend on what follows it. -/
theorem Argument.allows_append (x : Argument) (e : Ending) (s : List Char) :
    e.allows (x.source ++ s) = e.allows x.source :=
  e.allows_append x.source_ne_nil s

/-- An argument is read as its atom, since `readArgument` skips the blanks before it. -/
theorem readBy_mk {a : AtomReader} {gap : Blanks} {atom : Atom} (h : atom.ReadBy a) :
    (Argument.mk gap atom).ReadBy a := by
  intro rest hrest
  obtain ⟨hbegins, hread⟩ := h rest hrest
  have hskip : skipBlank ((Argument.mk gap atom).source ++ rest) = atom.source ++ rest := by
    rw [Argument.source, List.append_assoc, skipBlank_blanks, hbegins.skipBlank_eq]
  rw [hskip]
  exact ⟨hbegins, hread⟩

section Parts

variable {levels : Nat}

/-- A group is read up to its closing brace, which its body waits for (`.groupEnd`). -/
theorem readBy_group {body : Expr} (hbody : body.ReadBy (atomReader levels)) :
    (Atom.group body).ReadBy (atomReader (levels + 1)) := by
  intro rest _
  -- the brace is left by the expression and consumed by the group
  have hcloses : Closes [.groupEnd] ('}' :: rest) :=
    .of_stop (by decide) .groupEnd List.mem_cons_self rfl
  have hread := hbody.readExpression_eq hcloses
  have hsource : (Atom.group body).source ++ rest = '{' :: (body.source ++ '}' :: rest) := by
    simp [Atom.source]
  rw [hsource]
  refine ⟨.of_brace _, ?_⟩
  rw [read_atomReader_succ levels rfl, readAtomBody, if_pos rfl, readBraced, hread]
  rfl

/-- **A fraction is read as its two arguments**, the numerator up to the denominator. -/
theorem readBy_fraction {style : FractionStyle} {numerator denominator : Argument}
    (hnumerator : numerator.ReadBy (atomReader levels))
    (hdenominator : denominator.ReadBy (atomReader levels))
    (hword : Ending.word.allows numerator.source = true)
    (hnext : numerator.ending.allows denominator.source = true) :
    (Atom.fraction style numerator denominator).ReadBy (atomReader (levels + 1)) := by
  intro rest hrest
  -- the numerator is read up to the denominator, and the denominator up to the rest
  have hread := hnumerator.readArgument_eq (denominator.source ++ rest)
    ((denominator.allows_append _ rest).trans hnext)
  have hread' := hdenominator.readArgument_eq _ hrest
  have hname : Ending.ofCommand (fractionCommand style) = .word := by cases style <;> rfl
  refine begins_and_read levels (fractionCommand style) (by cases style <;> decide)
    (numerator.source ++ (denominator.source ++ rest))
    (by simp only [Atom.source, List.append_assoc]) ?_ ?_
  · rw [hname, numerator.allows_append]
    exact hword
  · -- every style has its own command
    have hfraction : Command.ofName (fractionCommand style) = .fraction style := by
      cases style <;> rfl
    rw [hfraction, readCommandBody, hread, hread']
    rfl

/-- A radical without an index is read as its body: no atom of the notation begins with a bracket,
so `readRadical` does not look for an index. -/
theorem readBy_squareRoot {body : Argument} (hbody : body.ReadBy (atomReader levels))
    (hword : Ending.word.allows body.source = true) :
    (Atom.squareRoot body).ReadBy (atomReader (levels + 1)) := by
  intro rest hrest
  refine begins_and_read levels "sqrt" (by decide) (body.source ++ rest)
    (by simp only [Atom.source, List.append_assoc]) ?_ ?_
  · rw [body.allows_append]
    exact hword
  · obtain ⟨hbegins, hread⟩ := hbody rest hrest
    -- no bracket follows, because the body begins with an atom
    obtain ⟨c, t, hcons, hblank, hbracket, _⟩ := hbegins.head
    have harg : readArgument (atomReader levels) (c :: t)
        = ⟨body.tree id unplaced, rest, body.log⟩ := by
      refine readArgument_of_read ?_
      rw [skipBlank_cons hblank, ← hcons, hread]
    show readRadical (atomReader levels) (body.source ++ rest) = _
    rw [readRadical, hcons]
    split
    · next hc => exact absurd (List.cons.inj hc).1 hbracket
    · rw [harg]
      rfl

/-- A radical with an index is read up to the bracket that closes the index (`.bracketEnd`), and
then as its body. -/
theorem readBy_root {gap : Blanks} {index : Expr} {body : Argument}
    (hindex : index.ReadBy (atomReader levels)) (hbody : body.ReadBy (atomReader levels)) :
    (Atom.root gap index body).ReadBy (atomReader (levels + 1)) := by
  intro rest hrest
  -- the index ends at its bracket, and the body begins after it
  have hcloses : Closes [.bracketEnd] (']' :: (body.source ++ rest)) :=
    .of_stop (by decide) .bracketEnd List.mem_cons_self rfl
  have hread := hindex.readExpression_eq hcloses
  have hread' := hbody.readArgument_eq _ hrest
  refine begins_and_read levels "sqrt" (by decide)
    (gap.chars ++ '[' :: (index.source ++ ']' :: (body.source ++ rest)))
    (by simp only [Atom.source, List.append_assoc, List.cons_append]) ?_ ?_
  · exact Ending.allows_blanks _ gap (by decide) _
  · show readRadical (atomReader levels) _ = _
    rw [readRadical, skipBlank_blanks, skipBlank_cons (by decide)]
    simp only [hread, List.drop_one, List.tail_cons, hread']
    rfl

/-- A command that changes its argument is read with it. -/
theorem readBy_modified {modifier : Modifier} {body : Argument}
    (hbody : body.ReadBy (atomReader levels)) (hword : Ending.word.allows body.source = true) :
    (Atom.modified modifier body).ReadBy (atomReader (levels + 1)) := by
  intro rest hrest
  refine begins_and_read levels modifier.name modifier.isAtomName_name (body.source ++ rest)
    (by simp only [Atom.source, List.append_assoc]) ?_ ?_
  · rw [modifier.ofCommand_name, body.allows_append]
    exact hword
  · rw [modifier.readCommandBody_name, hbody.readArgument_eq _ hrest]
    rfl

/-- A text that is taken as it is ends at its closing brace, as `readGroup_source` says. -/
theorem readBy_verbatim (levels : Nat) (kind : TextKind) (gap : Blanks) (text : Group) :
    (Atom.verbatim kind gap text).ReadBy (atomReader (levels + 1)) := by
  intro rest _
  refine begins_and_read levels (verbatimCommand kind) (by cases kind <;> decide)
    (gap.chars ++ (text.source ++ rest))
    (by simp only [Atom.source, List.append_assoc]) ?_ ?_
  · exact Ending.allows_blanks _ gap (by decide) _
  · have hverbatim : Command.ofName (verbatimCommand kind) = .verbatim kind := by
      cases kind <;> rfl
    rw [hverbatim, readCommandBody, readGroup_source]
    rfl

/-- **A fence is closed by its own command**: the body is read up to `right`, and both glyphs are
read by `readDelimiter`, each behind its command. -/
theorem readBy_fenced {gap gap' : Blanks} {opening closing : Delimiter} {body : Expr}
    (hbody : body.ReadBy (atomReader levels))
    (hword : Ending.word.allows (gap.chars ++ opening.source) = true)
    (hnext : opening.ending.allows body.source = true)
    (hword' : Ending.word.allows (gap'.chars ++ closing.source) = true) :
    (Atom.fenced gap opening body gap' closing).ReadBy (atomReader (levels + 1)) := by
  intro rest hrest
  have hne : ∀ (g : Blanks) (d : Delimiter), g.chars ++ d.source ≠ [] := by
    intro g d
    cases d <;> simp [Delimiter.source, command]
  -- the command that closes the fence, and its delimiter
  have hright : Ending.word.allows (gap'.chars ++ (closing.source ++ rest)) = true := by
    rw [← List.append_assoc, Ending.allows_append _ (hne gap' closing)]
    exact hword'
  have hcloses := Closes.of_right hright
  have hat := atCommand_command "right" "right" (by decide) (by decide) hright
  have hreadRight := readCommand_command "right" (by decide) hright
  have hclosing := readDelimiter_source gap' closing hrest
  -- the delimiter that opens it, and the body
  have hopening := readDelimiter_source gap opening
    ((hcloses.allows_append opening.ending body.source).trans hnext)
  have hread := hbody.readExpression_eq hcloses
  refine begins_and_read levels "left" (by decide)
    (gap.chars ++ (opening.source ++ (body.source ++
      (command "right" ++ (gap'.chars ++ (closing.source ++ rest))))))
    (by simp only [Atom.source, List.append_assoc]) ?_ ?_
  · rw [← List.append_assoc, Ending.allows_append _ (hne gap opening)]
    exact hword
  · show readFenced (atomReader levels) _ = _
    simp only [readFenced, hopening, hread, hat, hreadRight, hclosing, beq_self_eq_true, if_true]
    rfl

end Parts

/-! ## Environments

An environment that is no table is an expression up to the end with its own name. -/

theorem skipEnvironmentEnd_source (gap : Blanks) (name : Group) (s : List Char) :
    skipEnvironmentEnd (command "end" ++ (gap.chars ++ (name.source ++ s))) = s := by
  obtain ⟨hat, hread⟩ := readEnd_source gap name s
  rw [skipEnvironmentEnd, hat, if_pos rfl, hread]

/-- **An environment without columns is read as its body**, and its name is reported. -/
theorem readBy_environment {levels : Nat} {gap gap' : Blanks} {environment : PlainEnvironment}
    {body : Expr} (hbody : body.ReadBy (atomReader levels)) :
    (Atom.environment gap environment body gap').ReadBy (atomReader (levels + 1)) := by
  intro rest _
  -- the body is read up to the end with the same name
  have hcloses : Closes [.environmentEnd environment.name.text]
      (command "end" ++ (gap'.chars ++ (environment.name.source ++ rest))) :=
    .of_environmentEnd List.mem_cons_self gap' rest
  have hread := hbody.readExpression_eq hcloses
  refine begins_and_read levels "begin" (by decide)
    (gap.chars ++ (environment.name.source ++ (body.source ++
      (command "end" ++ (gap'.chars ++ (environment.name.source ++ rest))))))
    (by simp only [Atom.source, List.append_assoc]) ?_ ?_
  · exact Ending.allows_blanks _ gap (by decide) _
  · -- the name is known not to be that of a table
    show readEnvironment (atomReader levels) _ = _
    simp only [readEnvironment, readGroup_source, environment.nonempty, if_false,
      environment.notTabular, hread, skipEnvironmentEnd_source]
    rfl

end FormulaMarkup.Notation
