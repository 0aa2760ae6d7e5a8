import Mathlib.Data.List.TakeWhile
import FormulaMarkup.Proofs.Formula.Names
import FormulaMarkup.Proofs.Formula.Steps
import FormulaMarkup.Proofs.Node

/-!
# FormulaMarkup — the trees that can be read

Not every tree can be read.  This module says which trees can, one construct at a time, so that what
is true of all of them is proved along the constructs and without looking at the reader again.

The grammar is open in its atoms: `IsExpression atom` are the expressions whose atoms are those of
which `atom` holds, and `IsBody atom` what an atom is made of in terms of these.  `IsAtom` closes
the circle by induction on the levels, in the same way as the reader does.

* **`IsAtom`** — the trees of the atoms with a given number of levels.
* **`IsExpression`** — the trees of the expressions whose atoms are given.
* **`IsBody.parts`** — an atom is an expression or consists of expressions.
* **`isAtom_of_read`** — every atom that is read is one of the trees of its level.
* **`isExpression_read`** — what is read of a source is an expression of atoms with all levels.
-/

namespace FormulaMarkup.Formula

open Source Text

/-! ## The trees

The constructors carry what a later invariant needs of a construct: digits of a number, the length
of an operator, the tables in which a name is found, rows with at least one cell. -/

/-- Digits, at least one, and perhaps a period with further digits. -/
def IsNumber (text : String) : Prop :=
  ∃ whole, whole ≠ [] ∧ (∀ c ∈ whole, c.isDigit = true) ∧
    (text.toList = whole ∨
      ∃ decimals, (∀ c ∈ decimals, c.isDigit = true) ∧ text.toList = whole ++ '.' :: decimals)

section Grammar

variable (atom : Formula → Prop)

/-- What `readArgument` can give: an atom, or `emptyRow` where none starts. -/
def IsArgument (f : Formula) : Prop := atom f ∨ f = .emptyRow

/-- What `readItem` can give: a base with or without scripts, or what a stray token stands for. -/
inductive IsItem : Formula → Prop where
  | base {f : Formula} (h : IsArgument atom f) : IsItem f
  | scripted {base : Formula} {sub sup : Option Formula} (hbase : IsArgument atom base)
      (hsub : ∀ f ∈ sub, IsArgument atom f) (hsup : ∀ f ∈ sup, IsArgument atom f)
      (hsome : sub.isSome = true ∨ sup.isSome = true) : IsItem (.scripted base sub sup ())
  | column : IsItem (.operator "&" false)
  | lineBreak : IsItem .lineBreak

/-- What `readExpression` can give: `Node.ofItems` of some items, of which a single one stands for
itself. -/
def IsExpression (f : Formula) : Prop := ∃ items, (∀ x ∈ items, IsItem atom x) ∧ f = .ofItems items

/-- What `readAtomBody` can give, in terms of the atoms one level further down. -/
inductive IsBody : Formula → Prop where
  | expression {f : Formula} (h : IsExpression atom f) : IsBody f
  | nothing : IsBody .emptyRow
  | number {text : String} (h : IsNumber text) : IsBody (.number text)
  | identifier {text : String} {upright : Bool} (hne : text ≠ "")
      (hupright : upright = true → text ∈ functions) : IsBody (.identifier text upright)
  | operator {text : String} {large : Bool} (hone : text.toList.length = 1)
      (hlarge : large = true → text ∈ largeOperators.map Prod.snd) : IsBody (.operator text large)
  | text (text : String) (kind : TextKind) : IsBody (.text text kind)
  | fraction {numerator denominator : Formula} (hnumerator : IsArgument atom numerator)
      (hdenominator : IsArgument atom denominator) (style : FractionStyle) :
      IsBody (.fraction numerator denominator style)
  | radical {body : Formula} {index : Option Formula} (hbody : IsArgument atom body)
      (hindex : ∀ f ∈ index, IsExpression atom f) : IsBody (.radical body index)
  | accent {body : Formula} (hbody : IsArgument atom body) (glyph : String)
      (position : AccentPosition) : IsBody (.accent body glyph position)
  | fenced {opening closing : String} {body : Formula} (hopening : opening.toList.length ≤ 1)
      (hclosing : closing.toList.length ≤ 1) (hbody : IsExpression atom body) :
      IsBody (.fenced opening closing body)
  | matrix {rows : List (List Formula)} (hrows : ∀ row ∈ rows, row ≠ [])
      (hcells : ∀ row ∈ rows, ∀ cell ∈ row, IsExpression atom cell) (environment : Environment) :
      IsBody (.matrix rows environment.opening environment.closing)
  | styled (variant : MathVariant) {body : Formula} (hbody : IsArgument atom body) :
      IsBody (.styled variant body)
  | space (name : SpaceName) : IsBody (.space name)
  | phantom {body : Formula} (hbody : IsArgument atom body) : IsBody (.phantom body)

variable {atom}

/-- An item is an expression, the one that consists of it alone. -/
theorem IsItem.isExpression {f : Formula} (h : IsItem atom f) : IsExpression atom f :=
  ⟨[f], fun _ hx => List.mem_singleton.mp hx ▸ h, rfl⟩

/-- An argument is an expression, the one without items if no atom starts. -/
theorem IsArgument.isExpression {f : Formula} (h : IsArgument atom f) : IsExpression atom f :=
  (IsItem.base h).isExpression

/-- **What stands in an atom is made of expressions.** An atom is itself an expression, if it is a
group, or else all its parts are.  One case for each way in which `IsBody` makes an atom; the parts
are those that `Node.parts` lists. -/
theorem IsBody.parts {f : Formula} (h : IsBody atom f) :
    IsExpression atom f ∨ ∀ part ∈ f.parts, IsExpression atom part := by
  cases h with
  -- a group is its expression and has no node of its own
  | expression h => exact .inl h
  | fraction hnumerator hdenominator style =>
    -- two parts: the arguments of a fraction, or the body of a radical and its index
    refine .inr fun part hpart => ?_
    simp only [Node.parts, List.mem_cons, List.not_mem_nil, or_false] at hpart
    rcases hpart with rfl | rfl
    · exact hnumerator.isExpression
    · exact hdenominator.isExpression
  | radical hbody hindex =>
    refine .inr fun part hpart => ?_
    simp only [Node.parts, List.mem_cons, Option.mem_toList] at hpart
    rcases hpart with rfl | hpart
    · exact hbody.isExpression
    · exact hindex part hpart
  | matrix hrows hcells environment =>
    -- the cells of all rows
    refine .inr fun part hpart => ?_
    obtain ⟨row, hrow, hcell⟩ := List.mem_flatten.mp hpart
    exact hcells row hrow part hcell
  | accent hbody glyph position =>
    -- one part
    exact .inr fun part hpart => List.mem_singleton.mp hpart ▸ hbody.isExpression
  | styled variant hbody =>
    exact .inr fun part hpart => List.mem_singleton.mp hpart ▸ hbody.isExpression
  | phantom hbody =>
    exact .inr fun part hpart => List.mem_singleton.mp hpart ▸ hbody.isExpression
  | fenced _ _ hbody =>
    exact .inr fun part hpart => List.mem_singleton.mp hpart ▸ hbody
  | nothing | number _ | identifier _ _ | operator _ _ | text _ _ | space _ =>
    -- leaves have no parts
    exact .inr fun part hpart => absurd hpart List.not_mem_nil

/-- The `parts` of a base with scripts are arguments, as the base and the scripts are. -/
theorem isArgument_of_mem_parts {base part : Formula} {sub sup : Option Formula}
    (hbase : IsArgument atom base) (hsub : ∀ f ∈ sub, IsArgument atom f)
    (hsup : ∀ f ∈ sup, IsArgument atom f) (hpart : part ∈ (Node.scripted base sub sup ()).parts) :
    IsArgument atom part := by
  simp only [Node.parts, List.cons_append, List.mem_cons, List.mem_append,
    Option.mem_toList] at hpart
  rcases hpart with rfl | hpart | hpart
  · exact hbase
  · exact hsub part hpart
  · exact hsup part hpart

end Grammar

/-- What `atomReader` can give with a number of levels.  Where no level is left there are only
texts. -/
def IsAtom : Nat → Formula → Prop
  | 0 => fun f => ∃ text, f = .text text .words
  | levels + 1 => IsBody (IsAtom levels)

/-! ## Tokens

Numbers and words are runs of characters that begin with one of their kind, so they are not empty.
The glyph of a fence is at most one character. -/

/-- What `readNumber` reads from a digit on is a number. -/
theorem isBody_readNumber {c : Char} (hc : c.isDigit = true) (t : List Char)
    (atom : Formula → Prop) :
    IsBody atom (readNumber (c :: t)).value := by
  have hne : (c :: t).takeWhile Char.isDigit ≠ [] := by simp [hc]
  have hwhole : ∀ d ∈ (c :: t).takeWhile Char.isDigit, d.isDigit = true :=
    fun d hd => List.mem_takeWhile_imp hd
  unfold readNumber
  split
  · next u _ =>
    exact .number ⟨_, hne, hwhole, .inr ⟨u.takeWhile Char.isDigit,
      fun d hd => List.mem_takeWhile_imp hd, String.toList_ofList⟩⟩
  · exact .number ⟨_, hne, hwhole, .inl String.toList_ofList⟩

theorem ne_empty_iff {text : String} : text ≠ "" ↔ text.toList ≠ [] := by
  rw [ne_eq, ne_eq, ← String.toList_inj]
  rfl

/-- What `readIdentifier` reads from a letter on is an identifier, which is not empty. -/
theorem isBody_readIdentifier {c : Char} (hc : c.isAlpha = true) (t : List Char)
    (atom : Formula → Prop) : IsBody atom (readIdentifier (c :: t)).value := by
  refine .identifier ?_ (by simp)
  rw [ne_empty_iff, String.toList_ofList]
  simp [hc]

/-- Every glyph that `namedDelimiter?` knows is one character. -/
theorem length_le_of_namedDelimiter {name glyph : String} (h : namedDelimiter? name = some glyph) :
    glyph.toList.length ≤ 1 := by
  have hall : ∀ entry ∈ namedDelimiters, entry.2.toList.length ≤ 1 := by decide +kernel
  exact hall (name, glyph) (mem_of_lookup_eq h)

/-- The glyph of a fence is at most one character, whether a command or a character gives it, and
none where a period stands for it or nothing is left. -/
theorem length_readDelimiter_le (s : List Char) : (readDelimiter s).1.toList.length ≤ 1 := by
  unfold readDelimiter
  split
  · simp
  · dsimp only
    split
    · next h => exact length_le_of_namedDelimiter h
    · show "\\".toList.length ≤ 1
      decide
  · next c t _ _ =>
    show (literalDelimiter (String.singleton c)).toList.length ≤ 1
    unfold literalDelimiter
    split <;> simp

/-! ## The meaning of names

What a name stands for is looked up in tables, so the claims about it are about the entries of these
tables and can be checked one entry after the other. -/

/-- What a symbol stands for (`Command.symbolNode`) is an identifier or an operator of one
character.  The tables are checked once, each for what its entries become. -/
theorem isBody_symbolNode {name : String} {symbol : Symbol} (h : Symbol.ofName? name = some symbol)
    (atom : Formula → Prop) : IsBody atom (Command.symbolNode name symbol) := by
  have hletters : ∀ entry ∈ letters, entry.2 ≠ "" := by decide +kernel
  have hoperators : ∀ entry ∈ operators, entry.2.toList.length = 1 := by decide +kernel
  have hlarge : ∀ entry ∈ largeOperators, entry.2.toList.length = 1 := by decide +kernel
  have hfunctions : ∀ word ∈ functions, word ≠ "" := by decide +kernel
  -- the tables in the order in which they are looked at
  unfold Symbol.ofName? at h
  split at h
  · next glyph hglyph =>
    cases h
    exact .identifier (hletters _ (mem_of_lookup_eq hglyph)) (by simp)
  · split at h
    · next glyph hglyph =>
      cases h
      exact .operator (hoperators _ (mem_of_lookup_eq hglyph)) (by simp)
    · split at h
      · next glyph hglyph =>
        cases h
        exact .operator (hlarge _ (mem_of_lookup_eq hglyph))
          fun _ => List.mem_map.mpr ⟨_, mem_of_lookup_eq hglyph, rfl⟩
      · split at h
        · next hfunction =>
          cases h
          exact .identifier (hfunctions name hfunction) fun _ => hfunction
        · cases h

/-- The nodes that a command stands for by itself (`.leaf`) come from the tables. -/
theorem isBody_of_leaf {name : String} {node : Formula} (h : Command.ofName name = .leaf node)
    (atom : Formula → Prop) : IsBody atom node := by
  have hescaped : ∀ literal ∈ escapedLiterals, literal.toList.length = 1 := by decide
  rcases ofName_cases name with hword | ⟨_, htables⟩
  · rw [h] at hword
    simp [Command.words] at hword
  · rw [h] at htables
    rcases ofTables_cases name with
      ⟨_, ht⟩ | ⟨_, _, ht⟩ | ⟨symbol, hsymbol, ht⟩ | ⟨hmem, ht⟩ | ht <;>
      rw [ht] at htables <;> cases htables
    · exact isBody_symbolNode hsymbol atom
    · exact .operator (hescaped name hmem) (by simp)

/-- A name that is `.unknown` is not empty, because the command without a name is known. -/
theorem ne_empty_of_unknown {name other : String} (h : Command.ofName name = .unknown other) :
    other ≠ "" := by
  rcases ofName_cases name with hword | ⟨hne, htables⟩
  · rw [h] at hword
    simp [Command.words] at hword
  · rw [h] at htables
    rcases ofTables_cases name with ⟨_, ht⟩ | ⟨_, _, ht⟩ | ⟨_, _, ht⟩ | ⟨_, ht⟩ | ht <;>
      rw [ht] at htables <;> cases htables
    exact hne

/-! ## What is read

The reader is followed with an arbitrary reader of atoms whose values are given by `atom`, one lemma
for each routine.  The loops over scripts and rows are inductions, and the others put parts
together. -/

section Reader

variable {a : AtomReader} {atom : Formula → Prop}
  (ha : ∀ {s r}, a.read s = some r → atom r.value)
include ha

/-- What is read as an argument is one. -/
theorem isArgument_readArgument (s : List Char) : IsArgument atom (readArgument a s).value := by
  unfold readArgument
  split
  · next r h => exact .inl (ha h)
  · exact .inr rfl

/-- Every script that `readScripts` gives is an argument, if those found before are.  Induction on
the scripts in the order in which they are read. -/
theorem isArgument_readScripts {found : Scripts}
    (hfound : ∀ kind, ∀ f ∈ found.get kind, IsArgument atom f) (s : List Char) (kind : ScriptKind) :
    ∀ f ∈ (readScripts a found s).value.get kind, IsArgument atom f := by
  fun_induction readScripts a found s with
  | case1 => exact hfound kind
  | case2 => exact hfound kind
  | case3 => exact hfound kind
  | case4 found s c t _ new _ _ script ih =>
    refine ih fun kind f hf => ?_
    -- the new script is an argument, and the other one is what it was
    cases new <;> cases kind
    · cases hf
      exact isArgument_readArgument ha t
    · exact hfound .sup f hf
    · exact hfound .sub f hf
    · cases hf
      exact isArgument_readArgument ha t

/-- What `readScripted` gives for a base is an item, with or without scripts. -/
theorem isItem_readScripted {base : Formula} (hbase : IsArgument atom base) (s : List Char) :
    IsItem atom (readScripted a base s).value := by
  have hnone : ∀ kind, ∀ f ∈ Scripts.none.get kind, IsArgument atom f := by
    rintro (_ | _) f ⟨⟩
  have hscripts := isArgument_readScripts ha hnone s
  have hsub := hscripts .sub
  have hsup := hscripts .sup
  show IsItem atom ((readScripts a .none s).value.attach base)
  generalize (readScripts a .none s).value = scripts at hsub hsup
  obtain ⟨sub, sup⟩ := scripts
  -- without any script the base stands for itself
  cases sub with
  | none =>
    cases sup with
    | none => exact .base hbase
    | some sup => exact .scripted hbase hsub hsup (.inr rfl)
  | some sub => exact .scripted hbase hsub hsup (.inl rfl)

/-- What `readStray` gives, if anything, is an item: an empty row with scripts, an ampersand, or a
line break. -/
theorem isItem_readStray (s : List Char) : ∀ f ∈ (readStray a s).value, IsItem atom f := by
  cases s with
  | nil => rintro f ⟨⟩
  | cons c t =>
    -- a marker has an empty row for its base, and of the others two stand for a node
    cases hc : ScriptKind.ofMarker? c with
    | some kind =>
      rw [readStray_of_marker a hc]
      rintro f ⟨⟩
      exact isItem_readScripted ha (.inr rfl) (c :: t)
    | none =>
      rw [readStray_of_not_marker a hc]
      split
      · rintro f ⟨⟩
        exact .column
      · split
        · split
          · rintro f ⟨⟩
            exact .lineBreak
          · split <;> rintro f ⟨⟩
        · rintro f ⟨⟩

/-- What `readItem` gives, if anything, is an item. -/
theorem isItem_readItem (s : List Char) : ∀ f ∈ (readItem a s).value, IsItem atom f := by
  unfold readItem
  split
  · next r h =>
    rintro f ⟨⟩
    exact isItem_readScripted ha (.inl (ha h)) r.rest
  · exact isItem_readStray ha s

/-- All that `readItems` gives are items.  Induction on the items in the order in which they are
read. -/
theorem isItem_readItems (stops : List Stop) (s : List Char) :
    ∀ f ∈ (readItems a stops s).value, IsItem atom f := by
  fun_induction readItems a stops s with
  | case1 => simp
  | case2 => simp
  | case3 s c t _ _ item ih =>
    intro f hf
    rcases List.mem_append.mp hf with hitem | hitems
    · exact isItem_readItem ha (c :: t) f (Option.mem_toList.mp hitem)
    · exact ih f hitems

/-- What is read up to a stop is an expression. -/
theorem isExpression_readExpression (stops : List Stop) (s : List Char) :
    IsExpression atom (readExpression a stops s).value :=
  ⟨_, isItem_readItems ha stops s, rfl⟩

/-- The rows that `readRows` gives have cells, and the cells are expressions.  Induction on the
cells in the order in which they are read, those of the row in progress being given. -/
theorem isExpression_readRows (environment : List Char) {cells : List Formula}
    (hcells : ∀ cell ∈ cells, IsExpression atom cell) (s : List Char) :
    ∀ row ∈ (readRows a environment cells s).value,
      row ≠ [] ∧ ∀ cell ∈ row, IsExpression atom cell := by
  -- the cell that has just been read joins the row in progress
  have hextend : ∀ {cells : List Formula} (c : Char) (t : List Char),
      (∀ cell ∈ cells, IsExpression atom cell) →
      ∀ cell ∈ cells ++ [(readExpression a (cellStops environment) (c :: t)).value],
        IsExpression atom cell := by
    intro cells c t h cell hcell
    rcases List.mem_append.mp hcell with hold | hnew
    · exact h cell hold
    · rw [List.mem_singleton.mp hnew]
      exact isExpression_readExpression ha _ _
  fun_induction readRows a environment cells s with
  | case1 cells =>
    intro row hrow
    cases cells with
    | nil => simp at hrow
    | cons cell cells =>
      obtain rfl : row = cell :: cells := by simpa using hrow
      exact ⟨List.cons_ne_nil _ _, hcells⟩
  | case2 cells c t cell cells' r _ ih => exact ih (hextend c t hcells)
  | case3 cells c t cell cells' r _ ih =>
    intro row hrow
    rcases List.mem_cons.mp hrow with rfl | hrow
    · exact ⟨by simp [cells'], hextend c t hcells⟩
    · exact ih (by simp) row hrow
  | case4 cells c t cell cells' =>
    intro row hrow
    rw [List.mem_singleton.mp hrow]
    exact ⟨by simp [cells'], hextend c t hcells⟩

/-- A table is the body of an atom, with the glyphs of its environment. -/
theorem isBody_readMatrix (environment : Environment) (s : List Char) :
    IsBody atom (readMatrix a environment s).value := by
  have hnil : ∀ cell ∈ ([] : List Formula), IsExpression atom cell :=
    fun _ hcell => absurd hcell List.not_mem_nil
  have h := isExpression_readRows ha environment.name.toList hnil s
  exact .matrix (fun row hrow => (h row hrow).1) (fun row hrow => (h row hrow).2) environment

/-- What `readRadical` gives is the body of an atom, with an index or without one. -/
theorem isBody_readRadical (s : List Char) : IsBody atom (readRadical a s).value := by
  by_cases hbracket : ∃ t, skipBlank s = '[' :: t
  · obtain ⟨t, ht⟩ := hbracket
    rw [readRadical_of_bracket a ht]
    refine .radical (isArgument_readArgument ha _) ?_
    rintro f ⟨⟩
    exact isExpression_readExpression ha _ t
  · rw [readRadical_of_not_bracket a fun t ht => hbracket ⟨t, ht⟩]
    exact .radical (isArgument_readArgument ha _) (by rintro f ⟨⟩)

/-- What `readFenced` gives is the body of an atom, whether the fence is closed or not. -/
theorem isBody_readFenced (s : List Char) : IsBody atom (readFenced a s).value := by
  refine .fenced (length_readDelimiter_le s) ?_ (isExpression_readExpression ha _ _)
  split
  · exact length_readDelimiter_le _
  · exact Nat.zero_le 1

/-- What `readEnvironment` gives is the body of an atom: a table, an expression if its name is
unknown, or nothing. -/
theorem isBody_readEnvironment (s : List Char) : IsBody atom (readEnvironment a s).value := by
  unfold readEnvironment
  dsimp only
  split
  · exact .nothing
  · split
    · exact isBody_readMatrix ha _ _
    · exact .expression (isExpression_readExpression ha _ _)

/-- What a command with its arguments stands for is the body of an atom.  One case for each kind of
`Command`; the lemmas above are about those with a routine of their own. -/
theorem isBody_readCommandBody (name : String) (s : List Char) :
    IsBody atom (readCommandBody a (.ofName name) s).value := by
  cases h : Command.ofName name with
  | nothing => exact .nothing
  | fraction style =>
    exact .fraction (isArgument_readArgument ha s) (isArgument_readArgument ha _) style
  | radical => exact isBody_readRadical ha s
  | fence => exact isBody_readFenced ha s
  | environment => exact isBody_readEnvironment ha s
  | verbatim kind => exact .text _ kind
  | phantom => exact .phantom (isArgument_readArgument ha s)
  | space name => exact .space name
  | styled variant => exact .styled variant (isArgument_readArgument ha s)
  | accent glyph position => exact .accent (isArgument_readArgument ha s) glyph position
  | leaf node => exact isBody_of_leaf h atom
  | unknown other => exact .identifier (ne_empty_of_unknown h) (by simp)

/-- What is read where an atom starts is the body of one, in terms of the atoms one level further
down.  The cases are those of `readAtomBody`: a group, a command, a number, an identifier, and any
other character, which is an operator. -/
theorem isBody_readAtomBody (s : List Char) : IsBody atom (readAtomBody a s).value := by
  cases s with
  | nil => exact .nothing
  | cons c t =>
    simp only [readAtomBody]
    split
    · exact .expression (isExpression_readExpression ha _ t)
    · split
      · exact isBody_readCommandBody ha _ _
      · split
        · next hc => exact isBody_readNumber hc t atom
        · split
          · next hc => exact isBody_readIdentifier hc t atom
          · exact .operator (by simp) (by simp)

end Reader

/-- **Every atom that is read is one of the trees of its level.** Induction on the levels, with
`isBody_readAtomBody` as the step. -/
theorem isAtom_of_read {levels : Nat} {s : List Char} {r : Reading Formula}
    (h : (atomReader levels).read s = some r) : IsAtom levels r.value := by
  induction levels generalizing s r with
  | zero =>
    -- with no level left the atom is the rest as a text
    unfold atomReader at h
    dsimp only at h
    split at h
    · cases h
      exact ⟨_, rfl⟩
    · cases h
  | succ levels ih =>
    unfold atomReader at h
    dsimp only at h
    split at h
    · cases h
      exact isBody_readAtomBody ih s
    · cases h

/-- **What is read of a source is an expression** of atoms with all levels. -/
theorem isExpression_read (source : List Char) :
    IsExpression (IsAtom maxNesting) (read source).value :=
  isExpression_readExpression isAtom_of_read [] source

end FormulaMarkup.Formula
