import FormulaMarkup.Config.Basic
import FormulaMarkup.Config.Datum

/-!
# FormulaMarkup — decoding configurations

Data becomes overrides, or a whole configuration, entry by entry.  Entries are taken in the order of
their keys, and the first one that is wrong is the error.

* **`Kind.decode`** — a value of a kind.
* **`Overrides.decode`** — a layer: every key must be known, and null leaves a parameter unset
  unless it can be left out.
* **`Config.decode`** — a whole configuration: unknown keys do not matter, and missing ones keep
  their standard value.
-/

namespace FormulaMarkup

/-- A number.  An integer is rounded to the nearest one. -/
def decodeNumber : Datum → Except DecodeError Float
  | .integer value =>
    if Datum.fitsWord value then .ok (Float.ofInt value)
    else .error (.wrongType (.integer value) "f64")
  | .real value => .ok value
  | other => .error (.wrongType other "f64")

/-- A text. -/
def decodeText : Datum → Except DecodeError String
  | .text value => .ok value
  | other => .error (.wrongType other "a string")

/-- A flag. -/
def decodeFlag : Datum → Except DecodeError Bool
  | .flag value => .ok value
  | other => .error (.wrongType other "a boolean")

/-- One of several keywords, as a text or as a table whose only key it is, with null for its
value. -/
def decodeKeyword {α : Type} (ofName? : String → Option α) (allowed : List String) :
    Datum → Except DecodeError α
  | .text value => known value
  | .table [(key, value)] =>
    match known key, value with
    | .ok keyword, .null => .ok keyword
    | .ok _, value => .error (.wrongType value "unit")
    | .error e, _ => .error e
  | .table _ => .error .notSingle
  | other => .error (.wrongType other "string or map")
where
  /-- The keyword of this name. -/
  known (name : String) : Except DecodeError α :=
    match ofName? name with
    | some keyword => .ok keyword
    | none => .error (.unknownVariant name allowed)

/-- An alignment; null leaves it out. -/
def decodeAlignment : Datum → Except DecodeError (Option Alignment)
  | .null => .ok none
  | other =>
    (decodeKeyword Alignment.ofName? (Alignment.all.map (·.name)) other).map some

/-- When to print prettily. -/
def decodePrettyPrint : Datum → Except DecodeError PrettyPrint :=
  decodeKeyword PrettyPrint.ofName? (PrettyPrint.all.map (·.name))

/-- The value of a parameter of this kind. -/
def Kind.decode : (kind : Kind) → Datum → Except DecodeError kind.Value
  | .number => decodeNumber
  | .text => decodeText
  | .flag => decodeFlag
  | .alignment => decodeAlignment
  | .prettyPrint => decodePrettyPrint

/-- The names of all parameters, as a message lists them. -/
def Key.names : List String := Key.all.map (·.name)

/-- The message about an error, with the names of the parameters where it lists them. -/
def DecodeError.text (e : DecodeError) : List Char := e.message Key.names

/-- An entry of the data and the place where it stands. -/
structure Entry (Place : Type) where
  place : Place
  key : String
  value : Datum

/-- The entries in the order of their keys. -/
def Entry.sorted {Place : Type} (entries : List (Entry Place)) : List (Entry Place) :=
  entries.mergeSort fun a b => decide (a.key ≤ b.key)

namespace Overrides

/-- Adds one entry to a layer.  A parameter without a value stays unset, but an alignment can be
left out. -/
def addEntry (o : Overrides) (key : String) (value : Datum) : Except DecodeError Overrides :=
  match Key.ofName? key with
  | none => .error (.unknownField key)
  | some k =>
    match k.kind, value with
    | .alignment, _ => (k.kind.decode value).map (o.set k)
    | _, .null => .ok o
    | _, _ => (k.kind.decode value).map (o.set k)

/-- Adds entries one after the other.  An error goes with the place of its entry. -/
def addEntries {Place : Type} (o : Overrides) :
    List (Entry Place) → Except (Place × DecodeError) Overrides
  | [] => .ok o
  | entry :: entries =>
    match o.addEntry entry.key entry.value with
    | .error e => .error (entry.place, e)
    | .ok o => o.addEntries entries

/-- The layer that the entries describe. -/
def decode {Place : Type} (entries : List (Entry Place)) :
    Except (Place × DecodeError) Overrides :=
  empty.addEntries (Entry.sorted entries)

end Overrides

namespace Config

/-- Adds the entries of a table, in the given order. -/
def addFields (o : Overrides) : List (Entry Unit) → Except DecodeError Overrides
  | [] => .ok o
  | entry :: entries =>
    match Key.ofName? entry.key with
    | none => addFields o entries
    | some k =>
      match k.kind.decode entry.value with
      | .error e => .error e
      | .ok value => addFields (o.set k value) entries

/-- Adds the items of a sequence to the parameters in their order. -/
def addItems (o : Overrides) : List Key → List Datum → Except DecodeError Overrides
  | k :: keys, item :: items =>
    match k.kind.decode item with
    | .error e => .error e
    | .ok value => addItems (o.set k value) keys items
  | _, _ => .ok o

/-- The configuration that a piece of data describes.  A sequence lists the values of the
parameters in their order and may end early. -/
def decode : Datum → Except DecodeError Config
  | .table entries =>
    (addFields .empty (Entry.sorted (entries.map fun e => ⟨(), e.1, e.2⟩))).map ofOverrides
  | .sequence items =>
    match addItems .empty Key.all items with
    | .error e => .error e
    | .ok o =>
      if Key.all.length < items.length then .error (.tooLong items.length) else .ok (ofOverrides o)
  | other => .error (.wrongType other "struct Config")

end Config

end FormulaMarkup
