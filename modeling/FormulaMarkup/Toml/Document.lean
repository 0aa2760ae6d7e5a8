import FormulaMarkup.Toml.Definitions
import FormulaMarkup.Toml.Token

/-!
# FormulaMarkup — configuration files

A configuration file is read into the list of its top-level **`Field`**s.  Parameters are not
nested, so of an array or a table nothing but its kind is kept; what it contains is checked all the
same.

* **`Value`** — a value, as far as a parameter could have it.
* **`readFields?`** — the fields of a file, or nothing if it is malformed anywhere.
-/

namespace FormulaMarkup.Toml

/-- A part of the file, by the numbers of characters that are left where it starts and where it
stops. -/
structure Extent where
  start : Nat
  stop : Nat

/-- What a field holds. -/
inductive Value where
  | text (t : List Char)
  | integer (n : Int)
  /-- A number; nothing stands for one beyond the largest finite number. -/
  | real (x : Option Float)
  | flag (b : Bool)
  /-- A date, a time or both. -/
  | moment
  | sequence
  | table

/-- A field of the file, with the parts of the file that hold its name and its value. -/
structure Field where
  name : String
  nameExtent : Extent
  value : Value
  valueExtent : Extent

/-- A part of a key with dots. -/
structure KeyPart where
  name : String
  extent : Extent

/-! ## Values

A value is a text, a word, or an array or a table, which may hold others.  The words are told apart
by how they begin and by what they consist of. -/

/-- A character of a word that stands for a number, a flag or a date. -/
def isWordChar (c : Char) : Bool := c.isAlphanum || ['+', '-', '_', '.', ':'].contains c

/-- A number with its sign. -/
def signed (negative : Bool) : Magnitude → Value
  | .whole n => .integer (if negative then -n else n)
  | .real x => .real (if negative then x.map (-·) else x)

/-- A decimal number or one of the two words for special numbers, after its sign. -/
def unsignedNumber? (negative : Bool) (word : List Char) : Option Value :=
  if word = "inf".toList then some (.real (some (if negative then -1.0 / 0.0 else 1.0 / 0.0)))
  else if word = "nan".toList then some (.real (some (0.0 / 0.0)))
  else (decimal? word).map (signed negative)

/-- What a word stands for. -/
def wordValue? (word : List Char) : Option Value :=
  match word with
  | '+' :: w => unsignedNumber? false w
  | '-' :: w => unsignedNumber? true w
  | '0' :: 'x' :: w => (radixNumber? 16 w).map fun n => .integer n
  | '0' :: 'o' :: w => (radixNumber? 8 w).map fun n => .integer n
  | '0' :: 'b' :: w => (radixNumber? 2 w).map fun n => .integer n
  | w =>
    if w = "true".toList then some (.flag true)
    else if w = "false".toList then some (.flag false)
    else
      match unsignedNumber? false w with
      | some value => some value
      | none => if isMoment w then some .moment else none

/-- The word at the start of the input.  A day and a time of day with a blank between them are one
word. -/
def takeWord (s : List Char) : List Char × List Char :=
  let word := s.takeWhile isWordChar
  match s.dropWhile isWordChar with
  | ' ' :: c :: t =>
    if c.isDigit && date? word == some [] then
      (word ++ ' ' :: (c :: t).takeWhile isWordChar, (c :: t).dropWhile isWordChar)
    else (word, ' ' :: c :: t)
  | t => (word, t)

/-- Reads a key: parts with dots between them. -/
def readKey? (fuel : Nat) (s : List Char) : Option (List KeyPart × List Char) :=
  match fuel with
  | 0 => none
  | fuel + 1 =>
    match keyPart? s with
    | none => none
    | some (name, t) =>
      let part : KeyPart := ⟨String.ofList name, ⟨s.length, t.length⟩⟩
      match skipSpace t with
      | '.' :: u =>
        match readKey? fuel (skipSpace u) with
        | some (parts, v) => some (part :: parts, v)
        | none => none
      | u => some ([part], u)

/-- Reads a key and the sign of equality after it. -/
def readKeyAndSign? (s : List Char) : Option (List KeyPart × List Char) :=
  match readKey? s.length s with
  | some (key, '=' :: t) => some (key, skipSpace t)
  | _ => none

/-- How many arrays and inline tables may be open inside one another. -/
def maxDepth : Nat := 80

mutual

/-- Reads a value inside `depth` arrays and inline tables. -/
def readValue? (fuel depth : Nat) (s : List Char) : Option (Value × List Char) :=
  match fuel with
  | 0 => none
  | fuel + 1 =>
    match s with
    | '[' :: t =>
      if depth < maxDepth then (readArray? fuel (depth + 1) t).map (Value.sequence, ·) else none
    | '{' :: t =>
      if depth < maxDepth then (readInline? fuel (depth + 1) [] t).map (Value.table, ·) else none
    | '"' :: _ | '\'' :: _ =>
      match text? s with
      | some (t, rest) => some (.text t, rest)
      | none => none
    | _ =>
      let word := takeWord s
      (wordValue? word.1).map (·, word.2)

/-- Reads the rest of an array: values with commas between them, and perhaps one after the last. -/
def readArray? (fuel depth : Nat) (s : List Char) : Option (List Char) :=
  match fuel with
  | 0 => none
  | fuel + 1 =>
    match skipLines false s with
    | none => none
    | some (']' :: t) => some t
    | some t =>
      match readValue? fuel depth t with
      | none => none
      | some (_, u) =>
        match skipLines false u with
        | some (',' :: v) => readArray? fuel depth v
        | some (']' :: v) => some v
        | _ => none

/-- Reads the rest of an inline table, whose keys so far are `defs`: keys with values, with commas
between them and perhaps one after the last. -/
def readInline? (fuel depth : Nat) (defs : Definitions) (s : List Char) :
    Option (List Char) :=
  match fuel with
  | 0 => none
  | fuel + 1 =>
    match skipLines false s with
    | none => none
    | some ('}' :: t) => some t
    | some t =>
      match readKeyAndSign? t with
      | none => none
      | some (key, u) =>
        match defs.addKey? [] (key.map (·.name)), readValue? fuel depth u with
        | some defs, some (_, v) =>
          match skipLines false v with
          | some (',' :: w) => readInline? fuel depth defs w
          | some ('}' :: w) => some w
          | _ => none
        | _, _ => none

end

/-! ## The whole file

A file is a sequence of statements, each of which takes up one line or more.  The fields are
collected as they are read, the last one first. -/

/-- What has been read: the open table, all definitions and the top-level fields. -/
structure Progress where
  base : List String
  defs : Definitions
  fields : List Field

namespace Progress

/-- Nothing yet; the open table is the file itself. -/
def start : Progress := ⟨[], [], []⟩

/-- Adds a top-level field unless there is one of its name. -/
def addField (p : Progress) (field : Field) : Progress :=
  if p.fields.any (·.name == field.name) then p else { p with fields := field :: p.fields }

/-- Adds a top-level field in place of one of its name. -/
def putField (p : Progress) (field : Field) : Progress :=
  { p with fields := field :: p.fields.filter (·.name != field.name) }

/-- Takes up a key with its value.  A key with dots makes its first part a table, which stands
where that part stands. -/
def addKey? (p : Progress) (key : List KeyPart) (value : Value) (extent : Extent) :
    Option Progress :=
  match p.defs.addKey? p.base (key.map (·.name)) with
  | none => none
  | some defs =>
    let p := { p with defs }
    if p.base.isEmpty then
      match key with
      | [] => some p
      | [part] => some (p.addField ⟨part.name, part.extent, value, extent⟩)
      | part :: _ => some (p.addField ⟨part.name, part.extent, .table, part.extent⟩)
    else some p

/-- Takes up the header of a table, which stands at `extent`. -/
def addTable? (p : Progress) (key : List KeyPart) (extent : Extent) : Option Progress :=
  let path := key.map (·.name)
  match p.defs.addTable? path with
  | none => none
  | some defs =>
    let p : Progress := { p with defs, base := path }
    match key with
    | [] => some p
    -- a table of its own header is found there, even if a part of it came before
    | [part] => some (p.putField ⟨part.name, part.extent, .table, extent⟩)
    | part :: _ => some (p.addField ⟨part.name, part.extent, .table, part.extent⟩)

/-- Takes up the header of an element of an array of tables. -/
def addElement? (p : Progress) (key : List KeyPart) (extent : Extent) : Option Progress :=
  let path := key.map (·.name)
  match p.defs.addElement? path with
  | none => none
  | some defs =>
    let p : Progress := { p with defs, base := path }
    match key with
    | [] => some p
    | [part] => some (p.addField ⟨part.name, part.extent, .sequence, extent⟩)
    | part :: _ => some (p.addField ⟨part.name, part.extent, .table, part.extent⟩)

end Progress

/-- Reads one header or one key with its value, up to the end of its line. -/
def readStatement? (p : Progress) (s : List Char) : Option (Progress × List Char) :=
  match s with
  | '[' :: '[' :: t =>
    match readKey? s.length (skipSpace t) with
    | some (key, ']' :: ']' :: u) =>
      match p.addElement? key ⟨s.length, u.length⟩, endLine false u with
      | some p, some v => some (p, v)
      | _, _ => none
    | _ => none
  | '[' :: t =>
    match readKey? s.length (skipSpace t) with
    | some (key, ']' :: u) =>
      match p.addTable? key ⟨s.length, u.length⟩, endLine false u with
      | some p, some v => some (p, v)
      | _, _ => none
    | _ => none
  | _ =>
    match readKeyAndSign? s with
    | none => none
    | some (key, t) =>
      -- an item or a level costs at most two steps and at least one character
      match readValue? (2 * s.length + 2) 0 t with
      | none => none
      | some (value, u) =>
        match p.addKey? key value ⟨t.length, u.length⟩, endLine false u with
        | some p, some v => some (p, v)
        | _, _ => none

/-- Reads statements until the end of the file. -/
def readStatements? (fuel : Nat) (p : Progress) (s : List Char) : Option Progress :=
  match fuel with
  | 0 => none
  | fuel + 1 =>
    match skipLines false s with
    | none => none
    | some [] => some p
    | some t =>
      match readStatement? p t with
      | some (p, u) => readStatements? fuel p u
      | none => none

/-- The input after a byte order mark. -/
def dropMark : List Char → List Char
  | '\uFEFF' :: s => s
  | s => s

/-- The fields of a file, in their order, if it is well formed. -/
def readFields? (source : List Char) : Option (List Field) :=
  (readStatements? (source.length + 1) .start (dropMark source)).map (·.fields.reverse)

end FormulaMarkup.Toml
