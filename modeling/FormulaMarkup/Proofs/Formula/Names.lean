import FormulaMarkup.Formula.Command

/-!
# FormulaMarkup — the meaning of the names in the tables

A name is looked for among the words of the language first and in one table after the other.  No
name is in two of them, so the order does not matter and every name means what its own table says.

That no name is in two tables is checked name by name, and everything else is derived from these few
checks.  The tables can grow without a change to the proofs, as long as the checks go through.

* **`ofName_symbol`**, **`ofName_accent`**, **`ofName_variant`**, **`ofName_escaped`** — the names
  of the tables.
* **`ofName_unknown`** — a name that is in none of them.
* **`ofName_cases`**, **`ofTables_cases`** — what any name can mean.
* **`mem_words_of_delimits`** — constructs with delimiters have fixed names.
-/

namespace FormulaMarkup.Formula

open Source

/-- The names in `Command.words`, those of constructs and spaces, and the two commands `right` and
`end` that close what another command opens. -/
def structuralNames : List String :=
  ["frac", "dfrac", "tfrac", "sqrt", "left", "right", "begin", "end", "text", "operatorname",
   "phantom", "quad", "qquad"]

/-- Whether a name consists of letters, and of at least one. -/
def isLetterName (name : String) : Bool :=
  name.toList.all Char.isAlpha && !name.toList.isEmpty

/-- A name of letters has at least one letter and nothing else. -/
theorem isLetterName_iff {name : String} :
    isLetterName name = true ↔ name.toList ≠ [] ∧ ∀ c ∈ name.toList, c.isAlpha = true := by
  simp only [isLetterName, Bool.and_eq_true, List.all_eq_true, Bool.not_eq_true',
    List.isEmpty_eq_false_iff]
  exact And.comm

/-- Whether a name of letters is in no table and not among the `structuralNames`. -/
def isUnknownName (name : String) : Bool :=
  !structuralNames.contains name && (variant? name).isNone && (accent? name).isNone
    && (Symbol.ofName? name).isNone

/-- The names of symbols, in the order in which the tables are looked at. -/
def symbolNames : List String :=
  letters.map Prod.fst ++ operators.map Prod.fst ++ largeOperators.map Prod.fst ++ functions

/-- What `List.lookup` finds in a table is one of its entries. -/
theorem mem_of_lookup_eq {α : Type} {table : List (String × α)} {name : String} {value : α}
    (h : table.lookup name = some value) : (name, value) ∈ table := by
  obtain ⟨before, after, htable, _⟩ := List.lookup_eq_some_iff.mp h
  rw [htable]
  simp

theorem mem_of_lookup {α : Type} {table : List (String × α)} {name : String} {value : α}
    (h : table.lookup name = some value) : name ∈ table.map Prod.fst :=
  List.mem_map.mpr ⟨_, mem_of_lookup_eq h, rfl⟩

/-- If `Symbol.ofName?` knows a name, it is one of the `symbolNames`. -/
theorem mem_symbolNames {name : String} {symbol : Symbol}
    (h : Symbol.ofName? name = some symbol) : name ∈ symbolNames := by
  simp only [symbolNames, List.mem_append]
  -- the tables in the order in which they are looked at
  unfold Symbol.ofName? at h
  split at h
  · next hl => exact .inl (.inl (.inl (mem_of_lookup hl)))
  · split at h
    · next ho => exact .inl (.inl (.inr (mem_of_lookup ho)))
    · split at h
      · next hlarge => exact .inl (.inr (mem_of_lookup hlarge))
      · split at h
        · next hf => exact .inr hf
        · simp at h

/-- What holds of the `symbolNames` by inspection: they are letters, no `structuralNames`, and in
none of the tables that are looked at before. -/
theorem symbolNames_facts : ∀ name ∈ symbolNames,
    isLetterName name = true ∧ structuralNames.contains name = false
      ∧ (variant? name).isNone = true ∧ (accent? name).isNone = true := by
  decide +kernel

/-- The names of accents are letters, not structural, and no variants. -/
theorem accentNames_facts : ∀ name ∈ accents.map Prod.fst,
    isLetterName name = true ∧ structuralNames.contains name = false
      ∧ (variant? name).isNone = true := by
  decide +kernel

/-- The names of variants are letters and no words of the language. -/
theorem variantNames_facts : ∀ name ∈ variants.map Prod.fst,
    isLetterName name = true ∧ structuralNames.contains name = false := by
  decide +kernel

/-- A name of letters that is not structural is none of the `structuralNames`, and no single
character. -/
theorem not_mem_of_letters {names : List String} {name : String}
    (hnames : ∀ other ∈ names, structuralNames.contains other = true ∨ isLetterName other = false)
    (hletters : isLetterName name = true) (hname : structuralNames.contains name = false) :
    name ∉ names := by
  intro hmem
  rcases hnames name hmem with hs | hl
  · rw [hname] at hs
    cases hs
  · rw [hletters] at hl
    cases hl

/-- A name of letters that is not structural is not found in `Command.words`. -/
theorem lookup_words_eq_none {name : String} (hletters : isLetterName name = true)
    (hname : structuralNames.contains name = false) : Command.words.lookup name = none := by
  have hwords : ∀ word ∈ Command.words.map Prod.fst,
      structuralNames.contains word = true ∨ isLetterName word = false := by
    decide +kernel
  cases h : Command.words.lookup name with
  | none => rfl
  | some command => exact absurd (mem_of_lookup h) (not_mem_of_letters hwords hletters hname)

/-- **A symbol stands for its glyph, or for its name if it is a function**
(`Command.symbolNode`). -/
theorem ofName_symbol {name : String} {symbol : Symbol}
    (h : Symbol.ofName? name = some symbol) :
    Command.ofName name = .leaf (Command.symbolNode name symbol) := by
  obtain ⟨hletters, hname, hvariant, haccent⟩ := symbolNames_facts name (mem_symbolNames h)
  rw [Command.ofName, lookup_words_eq_none hletters hname]
  simp only [Command.ofTables, Option.isNone_iff_eq_none.mp hvariant,
    Option.isNone_iff_eq_none.mp haccent, h]

/-- `Command.ofName` gives an accent its glyph and its position. -/
theorem ofName_accent {name glyph : String} {position : AccentPosition}
    (h : accent? name = some (glyph, position)) :
    Command.ofName name = .accent glyph position := by
  obtain ⟨hletters, hname, hvariant⟩ := accentNames_facts name (mem_of_lookup h)
  rw [Command.ofName, lookup_words_eq_none hletters hname]
  simp only [Command.ofTables, Option.isNone_iff_eq_none.mp hvariant, h]

/-- `Command.ofName` gives a variant its style. -/
theorem ofName_variant {name : String} {variant : MathVariant}
    (h : variant? name = some variant) : Command.ofName name = .styled variant := by
  obtain ⟨hletters, hname⟩ := variantNames_facts name (mem_of_lookup h)
  rw [Command.ofName, lookup_words_eq_none hletters hname]
  simp only [Command.ofTables, h]

/-- `Command.ofName` gives a character that stands for itself behind a backslash as itself. -/
theorem ofName_escaped {name : String} (h : name ∈ escapedLiterals) :
    Command.ofName name = .leaf (.operator name false) := by
  simp only [escapedLiterals, List.mem_cons, List.not_mem_nil, or_false] at h
  rcases h with rfl | rfl | rfl | rfl | rfl <;> rfl

/-- **A name that is in no table is `unknown`.** It is made of letters, so it is no character that
stands for itself either. -/
theorem ofName_unknown {name : String} (hletters : isLetterName name = true)
    (h : isUnknownName name = true) : Command.ofName name = .unknown name := by
  simp only [isUnknownName, Bool.and_eq_true, Option.isNone_iff_eq_none,
    Bool.not_eq_eq_eq_not, Bool.not_true] at h
  obtain ⟨⟨⟨hname, hvariant⟩, haccent⟩, hsymbol⟩ := h
  -- the characters that stand for themselves are no letters
  have hescaped : isEscapedLiteral name = false := by
    have hliterals : ∀ literal ∈ escapedLiterals,
        structuralNames.contains literal = true ∨ isLetterName literal = false := by
      decide
    rw [isEscapedLiteral, List.contains_eq_mem]
    exact decide_eq_false (not_mem_of_letters hliterals hletters hname)
  rw [Command.ofName, lookup_words_eq_none hletters hname]
  simp only [Command.ofTables, hvariant, haccent, hsymbol, hescaped, Bool.false_eq_true, if_false]

/-- A name is in `Command.words`, or it is looked up in the tables and not empty, since the empty
name is a word. -/
theorem ofName_cases (name : String) :
    (name, Command.ofName name) ∈ Command.words ∨
      name ≠ "" ∧ Command.ofName name = Command.ofTables name := by
  unfold Command.ofName
  split
  · next command h => exact .inl (mem_of_lookup_eq h)
  · next h =>
    refine .inr ⟨?_, rfl⟩
    rintro rfl
    cases h

/-- What the tables say of a name: one case for each table, in the order in which `Command.ofTables`
looks the name up, and one for a name that is in none of them. -/
theorem ofTables_cases (name : String) :
    (∃ variant, Command.ofTables name = .styled variant) ∨
      (∃ glyph position, Command.ofTables name = .accent glyph position) ∨
      (∃ symbol, Symbol.ofName? name = some symbol ∧
        Command.ofTables name = .leaf (Command.symbolNode name symbol)) ∨
      (name ∈ escapedLiterals ∧ Command.ofTables name = .leaf (.operator name false)) ∨
      Command.ofTables name = .unknown name := by
  unfold Command.ofTables
  split
  · next variant _ => exact .inl ⟨variant, rfl⟩
  · split
    · next glyph position _ => exact .inr (.inl ⟨glyph, position, rfl⟩)
    · split
      · next symbol h => exact .inr (.inr (.inl ⟨symbol, h, rfl⟩))
      · split
        · next h =>
          rw [isEscapedLiteral, List.contains_iff_mem] at h
          exact .inr (.inr (.inr (.inl ⟨h, rfl⟩)))
        · exact .inr (.inr (.inr (.inr rfl)))

/-- Whether the command looks for a token of its own, or takes a text as it is. -/
def delimits : Command → Bool
  | .radical | .fence | .environment | .verbatim _ => true
  | _ => false

/-- A command that `delimits` is one of `Command.words`, as no table has such a command. -/
theorem mem_words_of_delimits {name : String} {command : Command}
    (h : Command.ofName name = command) (hcommand : delimits command = true) :
    (name, command) ∈ Command.words := by
  subst h
  rcases ofName_cases name with hword | ⟨_, htables⟩
  · exact hword
  · rw [htables] at hcommand
    rcases ofTables_cases name with ⟨_, ht⟩ | ⟨_, _, ht⟩ | ⟨_, _, ht⟩ | ⟨_, ht⟩ | ht <;>
      rw [ht] at hcommand <;> cases hcommand

/-! ## Names as they are read

A backslash is followed by letters or by one character.  All of these names but three are read as an
atom, and the three end what is being read. -/

/-- Whether a name is one that can stand after a backslash: letters, or any single character. -/
def isCommandName (name : String) : Bool :=
  isLetterName name || name.toList.length == 1

/-- Whether a command of this name stands at the front of an atom.  The other commands end a row, a
fence or an environment. -/
def isAtomName (name : String) : Bool :=
  isCommandName name && !(["\\", "right", "end"].contains name)

/-- The glyph of a fence can be given by a command, whose name is one that can be read. -/
theorem isCommandName_of_namedDelimiter {name glyph : String}
    (h : namedDelimiter? name = some glyph) : isCommandName name = true := by
  have hall : ∀ name ∈ namedDelimiters.map Prod.fst, isCommandName name = true := by
    decide +kernel
  exact hall name (mem_of_lookup h)

/-- A name of letters that is not structural stands at the front of an atom, as `right` and `end`
are structural. -/
theorem isAtomName_of_letters {name : String} (hletters : isLetterName name = true)
    (hname : structuralNames.contains name = false) : isAtomName name = true := by
  have hends : ∀ word ∈ ["\\", "right", "end"],
      structuralNames.contains word = true ∨ isLetterName word = false := by
    decide
  have hends' : ["\\", "right", "end"].contains name = false := by
    rw [List.contains_eq_mem]
    exact decide_eq_false (not_mem_of_letters hends hletters hname)
  simp only [isAtomName, isCommandName, hletters, hends', Bool.true_or, Bool.not_false,
    Bool.and_self]

end FormulaMarkup.Formula
