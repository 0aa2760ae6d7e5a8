import FormulaMarkup.Formula.LayOut
import FormulaMarkup.Formula.Reader

/-!
# FormulaMarkup — reading step by step, with a counter and a configuration

The reader of formulas passes the number of levels that are left from the outside to the inside, and
leaves it to `layOut` to look at the configuration afterwards.  Here everything is done at once and
step by step.  A state holds the input that is left and the number of atoms that are open; opening
an atom adds one to that number and closing it takes one away.  The routines carry the `Config`
along and build the `Layout` directly: `command` asks it for the width of a space, and `scripted`
for the place of scripts.  A loop may take as many turns as its input has characters, and one more;
a loop that is not over by then fails, so that a routine which answers has come to an end.

* **`State`** — the input, the counter, and the greatest value the counter has had.
* **`Routine`** — what goes from one state to another and may fail to come to an end.
* **`nested`** — opens an atom, unless the limit has been reached, and closes it again.
* **`scripted`** and **`command`** — the two routines that look at the configuration.
* **`content`** — reads what an atom consists of.
* **`run`** — reads a whole source from the initial state.
* **`Call`** — the routines by name, so that something can be said about each of them.
-/

namespace FormulaMarkup.Counter

open Source Text Formula

/-! ## States and routines

A routine is a step of a state machine.  It never looks at the counter of its state, except for
`nested`, nor at anything else that has gone before. -/

/-- What a routine starts from and what it leaves: the input, the number of open atoms and the
greatest number there has been, and what has been reported. -/
structure State where
  rest : List Char
  /-- How many atoms are open. -/
  depth : Nat
  /-- The greatest value that the counter has had. -/
  deepest : Nat
  log : List Diagnostic

namespace State

/-- The state before anything has been read. -/
def start (source : List Char) : State := ⟨source, 0, 0, []⟩

/-- One more atom is open. -/
def enter (st : State) : State :=
  { st with depth := st.depth + 1, deepest := max st.deepest (st.depth + 1) }

/-- One atom less is open. -/
def leave (st : State) : State := { st with depth := st.depth - 1 }

end State

/-- What goes from one state to another with an answer.  A routine that would not come to an end has
none: the loops count their turns, and one that runs out of them is a `failure`. -/
abbrev Routine (α : Type) := StateT State Option α

variable {α : Type}

/-- A reading in which no atom is opened. -/
def plain (f : List Char → Reading α) : Routine α := fun st =>
  some ((f st.rest).value, { st with rest := (f st.rest).rest, log := st.log ++ (f st.rest).log })

/-- A token, which is read without a guess. -/
def token (f : List Char → α × List Char) : Routine α := plain fun s => ⟨(f s).1, (f s).2, []⟩

/-- The input that is left, which stays as it is. -/
def input : Routine (List Char) := token fun s => (s, s)

/-- Goes on at another place of the input. -/
def moveTo (s : List Char) : Routine Unit := token fun _ => ((), s)

/-- Skips the blanks at the front. -/
def skipBlanks : Routine Unit := token fun s => ((), skipBlank s)

/-- Consumes a character if it is the next one. -/
def eat (c : Char) : Routine Unit :=
  token fun s => ((), if s.head? == some c then s.drop 1 else s)

/-- Reports something, and consumes nothing. -/
def note (diagnostic : Diagnostic) : Routine Unit := plain fun s => ⟨(), s, [diagnostic]⟩

/-- Consumes the characters at the front that satisfy `p`. -/
def takeRun (p : Char → Bool) : Routine (List Char) := token fun s => (s.takeWhile p, s.dropWhile p)

/-! ## Texts, numbers and identifiers

These routines open no atom and look at no configuration. -/

/-- The rest of the input, taken as it is. -/
def remainder : Routine Layout := do
  let text ← token fun s => (String.ofList s, [])
  note (.tooDeep text.utf8ByteSize)
  return .text text .words

/-- A run of digits, and a period with another run after it. -/
def number : Routine Layout := do
  let whole ← takeRun Char.isDigit
  match ← input with
  | '.' :: t =>
    moveTo t
    let decimals ← takeRun Char.isDigit
    return .number (String.ofList (whole ++ '.' :: decimals))
  | _ => return .number (String.ofList whole)

/-- A run of letters. -/
def identifier : Routine Layout := do
  let letters ← takeRun Char.isAlpha
  return .identifier (String.ofList letters) false

/-- The text of a group, taken as it is. -/
def verbatim (kind : TextKind) : Routine Layout := do
  let text ← token readGroup
  return .text (String.ofList text) kind

/-! ## One atom further down

Every routine of this section opens atoms, whose contents are read by `inner`, or hands `inner` on
to a routine that does.  The configuration is handed on in the same way; only `attach` and `command`
look at it. -/

section Inner

variable (config : Config) (inner : Routine Layout)

/-- Opens an atom and closes it again.  Once `maxNesting` atoms are open the `remainder` of the
input is taken instead.  No other routine looks at the counter. -/
def nested : Routine Layout := do
  let st ← get
  if maxNesting ≤ st.depth then remainder
  else
    modify State.enter
    let node ← inner
    modify State.leave
    return node

/-- An atom, if one starts here.  Otherwise nothing is consumed. -/
def atom? : Routine (Option Layout) := do
  let s ← input
  if startsAtom s then
    let node ← nested inner
    return some node
  else return none

/-- The next atom behind any blanks, or `emptyRow` if none starts there. -/
def argument : Routine Layout := do
  skipBlanks
  let node? ← atom? inner
  return node?.getD .emptyRow

/-- Collects the scripts that follow, with those that have been found: at most one of each kind.  A
marker of a kind that is there already ends the loop and is left in the input.  It fails if the
turns run out. -/
def scriptsLoop : Nat → Option Layout → Option Layout → Routine (Option Layout × Option Layout)
  | 0, _, _ => failure
  | turns + 1, sub, sup => do
    skipBlanks
    match ← input with
    | [] => return (sub, sup)
    | c :: t =>
      match ScriptKind.ofMarker? c, sub, sup with
      | some .sub, none, _ =>
        moveTo t
        let script ← argument inner
        scriptsLoop turns (some script) sup
      | some .sup, _, none =>
        moveTo t
        let script ← argument inner
        scriptsLoop turns sub (some script)
      | _, _, _ => return (sub, sup)

/-- The base with its scripts, at the place that the configuration has for them (`scriptPlacement`);
without any script it stands for itself. -/
def attach (base : Layout) : Option Layout × Option Layout → Layout
  | (none, none) => base
  | (sub, sup) => .scripted base sub sup
    (if base.isLargeOperator && config.useMunderover then .underOver else .beside)

/-- A base and the scripts behind it, at the place that the configuration has for them. -/
def scripted (base : Layout) : Routine Layout := do
  let s ← input
  let scripts ← scriptsLoop inner (s.length + 1) none none
  return attach config base scripts

/-- What starts no atom: a marker without a base, a separator, or something that is dropped. -/
def stray : Routine (Option Layout) := do
  match ← input with
  | [] => return none
  | c :: t =>
    match ScriptKind.ofMarker? c with
    | some _ =>
      let node ← scripted config inner .emptyRow
      return some node
    | none =>
      if c = '&' then
        moveTo t
        return some (.operator "&" false)
      else if c = '\\' then
        if t.head? = some '\\' then
          moveTo t.tail
          return some .lineBreak
        else if atCommand "end".toList (c :: t) then
          let _ ← token readCommand
          let name ← token readGroup
          note (.strayEnd name)
          return none
        else
          let _ ← token readCommand
          return none
      else
        moveTo t
        return none

/-- An atom with its scripts, or what `stray` makes of the input. -/
def item : Routine (Option Layout) := do
  match ← atom? inner with
  | some node =>
    let node ← scripted config inner node
    return some node
  | none => stray config inner

/-- Collects items up to a stop or to the end of the input, behind those that have been found.  It
fails if the turns run out. -/
def itemsLoop (stops : List Stop) : Nat → List Layout → Routine (List Layout)
  | 0, _ => failure
  | turns + 1, items => do
    skipBlanks
    let s ← input
    if s.isEmpty || Stop.anyAt stops s then return items
    else
      let next ← item config inner
      itemsLoop stops turns (items ++ next.toList)

/-- Items up to a stop, as one formula. -/
def expression (stops : List Stop) : Routine Layout := do
  let s ← input
  let items ← itemsLoop config inner stops (s.length + 1) []
  return .ofItems items

/-- What comes after a cell. -/
inductive CellEnd where
  | column | row | table
  /-- None of the tokens that the loop over the cells consumes. -/
  | nothing

/-- Consumes the token that a cell ends with. -/
def cellEnd : Routine CellEnd := do
  match ← input with
  | '&' :: t =>
    moveTo t
    return .column
  | '\\' :: '\\' :: t =>
    moveTo t
    return .row
  | s =>
    if atCommand "end".toList s then
      let _ ← token readCommand
      let _ ← token readGroup
      return .table
    else return .nothing

/-- The rows that are finished, and the row in progress. -/
abbrev Rows := List (List Layout) × List Layout

/-- What the loop over the cells does after a cell.  If nothing ends there, it goes on where it
stands. -/
def afterCell (loop : List (List Layout) → List Layout → Routine Rows)
    (rows : List (List Layout)) (row : List Layout) : CellEnd → Routine Rows
  | .column => loop rows row
  | .row => loop (rows ++ [row]) []
  | .table => return (rows, row)
  | .nothing => loop rows row

/-- Reads cells up to the end of the environment or of the input, behind the rows and the cells that
have been found.  It fails if the turns run out. -/
def rowsLoop (environment : List Char) : Nat → List (List Layout) → List Layout → Routine Rows
  | 0, _, _ => failure
  | turns + 1, rows, row => do
    let s ← input
    if s.isEmpty then return (rows, row)
    else
      let cell ← expression config inner (cellStops environment)
      let ending ← cellEnd
      afterCell (rowsLoop environment turns) rows (row ++ [cell]) ending

/-- The rows that are finished, with the row in progress if it has a cell. -/
def finish (rows : Rows) : List (List Layout) :=
  if rows.2.isEmpty then rows.1 else rows.1 ++ [rows.2]

/-- The rows of a table, between the delimiters of its environment. -/
def matrix (environment : Environment) : Routine Layout := do
  let s ← input
  let rows ← rowsLoop config inner environment.name.toList (s.length + 1) [] []
  return .matrix (finish rows) environment.opening environment.closing

/-- What stands between braces, behind the first of them.  The second one may be missing. -/
def group : Routine Layout := do
  let body ← expression config inner [.groupEnd]
  eat '}'
  return body

/-- The body of a radical, with an index in brackets in front of it. -/
def radical : Routine Layout := do
  skipBlanks
  match ← input with
  | '[' :: t =>
    moveTo t
    let index ← expression config inner [.bracketEnd]
    eat ']'
    let body ← argument inner
    return .radical body (some index)
  | _ =>
    let body ← argument inner
    return .radical body none

/-- The glyph behind `\right`, none if the fence is not closed. -/
def closingFence : Routine String := do
  let s ← input
  if atCommand "right".toList s then
    let _ ← token readCommand
    token readDelimiter
  else return ""

/-- What stands between two glyphs, behind `\left`. -/
def fenced : Routine Layout := do
  let opening ← token readDelimiter
  let body ← expression config inner [.right]
  let closing ← closingFence
  return .fenced opening closing body

/-- An environment behind `\begin`: a table if the name is known, otherwise what stands in it. -/
def environment : Routine Layout := do
  let name ← token readGroup
  if name = [] then return .emptyRow
  else
    match Environment.ofName? (String.ofList name) with
    | some environment =>
      token fun s => ((), if environment.hasColumnSpec then (readGroup s).2 else s)
      matrix config inner environment
    | none =>
      note (.unknownEnvironment name)
      let body ← expression config inner [.environmentEnd name]
      token fun s => ((), skipEnvironmentEnd s)
      return body

/-- A fraction, whose parts are the next two arguments. -/
def fraction (style : FractionStyle) : Routine Layout := do
  let numerator ← argument inner
  let denominator ← argument inner
  return .fraction numerator denominator style

/-- What a command stands for, after its name.  A space has the width that the configuration gives
to its name (`SpaceName.width`). -/
def command : Command → Routine Layout
  | .nothing => return .emptyRow
  | .fraction style => fraction inner style
  | .radical => radical config inner
  | .fence => fenced config inner
  | .environment => environment config inner
  | .verbatim kind => verbatim kind
  | .phantom => do
    let body ← argument inner
    return .phantom body
  | .space name => return .space (name.width config)
  | .styled variant => do
    let body ← argument inner
    return .styled variant body
  | .accent glyph position => do
    let body ← argument inner
    return .accent body glyph position
  -- the symbols of the tables are identifiers and operators, which have no labels
  | .leaf node => return layOut config node
  | .unknown name => do
    note (.unknownCommand name.toList)
    return .identifier name false

/-- An atom that has been opened. -/
def body : Routine Layout := do
  match ← input with
  | [] => return .emptyRow
  | c :: t =>
    if c = '{' then
      moveTo t
      group config inner
    else if c = '\\' then
      let name ← token readCommand
      command config inner (.ofName (String.ofList name))
    else if c.isDigit then number
    else if c.isAlpha then identifier
    else
      moveTo t
      return .operator (String.singleton c) false

end Inner

section Sources

variable (config : Config)

/-- Reads what an atom consists of, down to `levels` atoms inside one another.  Deeper it fails. -/
def content : Nat → Routine Layout
  | 0 => failure
  | levels + 1 => body config (content levels)

/-- Reads what an atom consists of, on the level that the counter has reached.  The limit
`maxNesting` is reached before the levels are used up. -/
def inside : Routine Layout := content config maxNesting

/-- Reads a whole source under a configuration, if that comes to an end. -/
def run (source : List Char) : Option (Reading Layout) :=
  (expression config (inside config) [] (.start source)).map fun (layout, st) =>
    ⟨layout, st.rest, st.log⟩

end Sources

/-! ## The routines by name

A statement about all routines is one about every `Call`.  The answers are left out, since they are
of different types. -/

/-- A routine that reads something of the input, with its arguments. -/
inductive Call where
  | expression (stops : List Stop)
  | item
  | stray
  | scripted (base : Layout)
  | argument
  | atom
  | group
  | fraction (style : FractionStyle)
  | radical
  | fenced
  | environment
  | matrix (table : Environment)
  | command (meaning : Command)
  | verbatim (kind : TextKind)
  | delimiter
  | number
  | identifier

/-- Runs a routine under a configuration, for what it does to the state. -/
def Call.run (config : Config) : Call → Routine Unit
  | .expression stops => discard (Counter.expression config (inside config) stops)
  | .item => discard (Counter.item config (inside config))
  | .stray => discard (Counter.stray config (inside config))
  | .scripted base => discard (Counter.scripted config (inside config) base)
  | .argument => discard (Counter.argument (inside config))
  | .atom => discard (atom? (inside config))
  | .group => discard (Counter.group config (inside config))
  | .fraction style => discard (Counter.fraction (inside config) style)
  | .radical => discard (Counter.radical config (inside config))
  | .fenced => discard (Counter.fenced config (inside config))
  | .environment => discard (Counter.environment config (inside config))
  | .matrix table => discard (Counter.matrix config (inside config) table)
  | .command meaning => discard (Counter.command config (inside config) meaning)
  | .verbatim kind => discard (Counter.verbatim kind)
  | .delimiter => discard (token readDelimiter)
  | .number => discard Counter.number
  | .identifier => discard Counter.identifier

end FormulaMarkup.Counter
