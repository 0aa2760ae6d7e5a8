import FormulaMarkup.Decimal.Text
import FormulaMarkup.Text.Quoted

/-!
# FormulaMarkup — data of unknown shape

A configuration arrives as data whose shape nobody has checked yet.  **`Datum`** is such data,
**`Datum.describe`** says what it is in a message, and **`DecodeError`** lists what can be wrong
with it.
-/

namespace FormulaMarkup

/-- A piece of data.  The entries of a table keep the order of their source. -/
inductive Datum where
  | null
  | flag (value : Bool)
  | integer (value : Int)
  | real (value : Float)
  | text (value : String)
  | sequence (items : List Datum)
  | table (entries : List (String × Datum))

instance : Inhabited Datum := ⟨.null⟩

namespace Datum

/-- Whether an integer fits a word of 64 bits, with or without a sign. -/
def fitsWord (n : Int) : Bool :=
  -(Int.pow 2 63) ≤ n && n < Int.pow 2 64

/-- An integer in a message.  One that does not fit a word is said to need a wider one. -/
def describeInteger (n : Int) : List Char :=
  "integer `".toList ++ Decimal.intText n ++ "`".toList
    ++ (if fitsWord n then []
      else if n < Int.pow 2 127 then " as i128".toList
      else " as u128".toList)

/-- What a piece of data is, with its value if that is short. -/
def describe : Datum → List Char
  | .null => "null".toList
  | .flag value => "boolean `".toList ++ (if value then "true" else "false").toList ++ "`".toList
  | .integer value => describeInteger value
  | .real value => "floating point `".toList ++ Decimal.messageText value ++ "`".toList
  | .text value => "string ".toList ++ Text.quoted value.toList
  | .sequence _ => "sequence".toList
  | .table _ => "map".toList

end Datum

/-- What can be wrong with data that should be a configuration. -/
inductive DecodeError where
  /-- A key that is none of the parameters. -/
  | unknownField (name : String)
  /-- A keyword that is none of those that the parameter takes. -/
  | unknownVariant (name : String) (allowed : List String)
  /-- Data of the wrong type. -/
  | wrongType (found : Datum) (expected : String)
  /-- A table that should have a single entry, the keyword. -/
  | notSingle
  /-- A sequence of this length, with more items than there are parameters. -/
  | tooLong (length : Nat)

namespace DecodeError

/-- Names in backticks with commas between them. -/
def listing (names : List String) : List Char :=
  ", ".toList.intercalate (names.map fun name => '`' :: name.toList ++ ['`'])

/-- The message of an error.  `fields` are the names of all parameters. -/
def message (fields : List String) : DecodeError → List Char
  | .unknownField name =>
    "unknown field `".toList ++ name.toList ++ "`, expected one of ".toList ++ listing fields
  | .unknownVariant name allowed =>
    "unknown variant `".toList ++ name.toList ++ "`, expected one of ".toList ++ listing allowed
  | .wrongType found expected =>
    "invalid type: ".toList ++ found.describe ++ ", expected ".toList ++ expected.toList
  | .notSingle => "invalid value: map, expected map with a single key".toList
  | .tooLong length =>
    "invalid length ".toList ++ Nat.toDigits 10 length
      ++ ", expected fewer elements in array".toList

end DecodeError

end FormulaMarkup
