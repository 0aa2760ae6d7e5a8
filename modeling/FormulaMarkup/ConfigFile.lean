import FormulaMarkup.Config.Decode
import FormulaMarkup.Report
import FormulaMarkup.Toml.Document

/-!
# FormulaMarkup — loading a configuration file

A configuration file sets some of the parameters.  Loading it can fail in three ways, which
**`LoadError`** tells apart: the file cannot be read, it is malformed, or one of its fields is not
what a parameter takes.
-/

namespace FormulaMarkup

/-- What became of reading a file, or the standard input. -/
inductive FileContent where
  | bytes (content : ByteArray)
  | missing
  | directory
  /-- Any other failure, with its description. -/
  | unreadable (reason : String)

/-- Why the text of a file is not there. -/
inductive FileError where
  | missing
  | directory
  | notText
  | unreadable (reason : String)
  deriving DecidableEq, Repr

/-- What a run says about such a file. -/
def FileError.message : FileError → String
  | .missing => "No such file or directory (os error 2)"
  | .directory => "Is a directory (os error 21)"
  | .notText => "stream did not contain valid UTF-8"
  | .unreadable reason => reason

/-- The text of a file, if it can be read and is text. -/
def FileContent.text : FileContent → Except FileError (List Char)
  | .bytes content =>
    match String.fromUTF8? content with
    | some text => .ok text.toList
    | none => .error .notText
  | .missing => .error .missing
  | .directory => .error .directory
  | .unreadable reason => .error (.unreadable reason)

/-- Why a configuration file cannot be used. -/
inductive LoadError where
  | file (e : FileError)
  /-- The file is no TOML, or holds a value that no field can have. -/
  | malformed
  /-- A field is wrong: which part of which text, and why. -/
  | field (source : List Char) (part : Report.Part) (e : DecodeError)

namespace Toml

/-- The part of a text that an extent stands for. -/
def Extent.part (source : List Char) (e : Extent) : Report.Part :=
  ⟨source.length - e.start, source.length - e.stop⟩

/-- A value as data for a parameter of a kind.  A keyword must be a text, and a number must not lie
beyond all that numbers can hold. -/
def Value.datum? (kind : Kind) (value : Value) : Option Datum :=
  match kind, value with
  | _, .text t => some (.text (String.ofList t))
  | .alignment, _ | .prettyPrint, _ => none
  | _, .integer n =>
    if -(Int.pow 2 127) ≤ n ∧ n < Int.pow 2 128 then some (.integer n) else none
  | _, .real x => x.map .real
  | _, .flag b => some (.flag b)
  | _, .moment | _, .table => some (.table [])
  | _, .sequence => some (.sequence [])

end Toml

/-- Adds a field to a layer.  A key that is not known is wrong itself; otherwise its value may
be. -/
def Overrides.addField (source : List Char) (o : Overrides) (field : Toml.Field) :
    Except LoadError Overrides :=
  match Key.ofName? field.name with
  | none =>
    .error (.field source (field.nameExtent.part source) (.unknownField field.name))
  | some k =>
    match field.value.datum? k.kind with
    | none => .error .malformed
    | some datum =>
      match k.kind.decode datum with
      | .ok value => .ok (o.set k value)
      | .error e => .error (.field source (field.valueExtent.part source) e)

/-- The layer that a text describes.  Fields are checked in the order of their names. -/
def Overrides.ofText (source : List Char) : Except LoadError Overrides :=
  match Toml.readFields? source with
  | none => .error .malformed
  | some fields =>
    (fields.mergeSort fun a b => decide (a.name ≤ b.name)).foldlM
      (fun o field => o.addField source field) .empty

/-- The layer that a file describes. -/
def Overrides.ofFile (file : FileContent) : Except LoadError Overrides :=
  match file.text with
  | .ok source => Overrides.ofText source
  | .error e => .error (.file e)

namespace LoadError

/-- The title of every report about a configuration file. -/
def title : String := "invalid configuration file"

/-- The report about a file of the given name.  Where the file is malformed as a whole, the title
is all there is. -/
def report (name : List Char) : LoadError → List Char
  | .file e => "I/O error: ".toList ++ e.message.toList
  | .malformed => "Error: ".toList ++ title.toList
  | .field source part e => Report.render title.toList name source part e.text

end LoadError

end FormulaMarkup
