/-!
# FormulaMarkup — what a configuration file has defined

No key of a configuration file may be defined twice, and some tables may not be extended once they
are there.  **`Definitions`** remembers every path that has been defined and how, and refuses a
definition that is not allowed.

* **`Definitions.addKey?`** — a key with a value, whose parts before the last are tables.
* **`Definitions.addTable?`** — the header of a table.
* **`Definitions.addElement?`** — the header of an element of an array of tables.
-/

namespace FormulaMarkup.Toml

/-- How a path has come to be defined. -/
inductive Origin where
  /-- By a value, which is closed to any addition. -/
  | value
  /-- By its own header. -/
  | header
  /-- By the header of something inside it. -/
  | implicit
  /-- By a key with dots. -/
  | dotted
  /-- By the header of an element. -/
  | elements
  deriving DecidableEq, Repr

/-- The paths that have been defined. -/
abbrev Definitions := List (List String × Origin)

namespace Definitions

/-- How a path has come to be defined, if it has. -/
def origin? (defs : Definitions) (path : List String) : Option Origin :=
  defs.lookup path

/-- Adds or replaces the definition of a path. -/
def define (defs : Definitions) (path : List String) (origin : Origin) : Definitions :=
  (path, origin) :: defs.filter (·.1 != path)

/-- Forgets everything inside a path. -/
def forgetInside (defs : Definitions) (path : List String) : Definitions :=
  defs.filter fun entry => !(path.isPrefixOf entry.1 && path.length < entry.1.length)

/-- Goes through the tables on the way of a header, below `base`, and defines those that are
missing. -/
def descendHeader? (defs : Definitions) (base : List String) :
    List String → Option Definitions
  | [] => some defs
  | part :: parts =>
    let path := base ++ [part]
    match defs.origin? path with
    | none => (defs.define path .implicit).descendHeader? path parts
    | some .value => none
    | some _ => defs.descendHeader? path parts

/-- Goes through the tables on the way of a key with dots.  A table with a header of its own cannot
be extended in this way. -/
def descendKey? (defs : Definitions) (base : List String) : List String → Option Definitions
  | [] => some defs
  | part :: parts =>
    let path := base ++ [part]
    match defs.origin? path with
    | none => (defs.define path .dotted).descendKey? path parts
    | some .value | some .header => none
    | some _ => defs.descendKey? path parts

/-- Defines the value of a key inside the table `base`.  A table that holds the value of a key with
dots must have come from such a key itself. -/
def addKey? (defs : Definitions) (base key : List String) : Option Definitions :=
  let way := key.dropLast
  match defs.descendKey? base way with
  | none => none
  | some defs =>
    if !way.isEmpty && defs.origin? (base ++ way) != some .dotted then none
    else if (defs.origin? (base ++ key)).isSome then none
    else some (defs.define (base ++ key) .value)

/-- Defines a table by its header. -/
def addTable? (defs : Definitions) (path : List String) : Option Definitions :=
  match defs.descendHeader? [] path.dropLast with
  | none => none
  | some defs =>
    match defs.origin? path with
    | none | some .implicit => some (defs.define path .header)
    | some _ => none

/-- Begins a new element of an array of tables, which is empty whatever the one before held. -/
def addElement? (defs : Definitions) (path : List String) : Option Definitions :=
  match defs.descendHeader? [] path.dropLast with
  | none => none
  | some defs =>
    match defs.origin? path with
    | none => some (defs.define path .elements)
    | some .elements => some (defs.forgetInside path)
    | some _ => none

end Definitions

end FormulaMarkup.Toml
