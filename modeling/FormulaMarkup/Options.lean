import FormulaMarkup.Convert

/-!
# FormulaMarkup — options objects

An embedding page configures conversion with an object whose properties are the parameters.  An
object may hold anything, so each property is checked; a property that is not there leaves its
parameter alone.

* **`Options.overrides`** — the layer that an object describes, or the first property that is wrong,
  in the order of the parameters.
* **`Options.ofConfig`** — the object that describes a whole configuration.
* **`Embedding`** — a converter that a page holds on to, and **`Embedding.call`**, what it can ask
  of it.  A call that fails changes nothing.
-/

namespace FormulaMarkup

/-- A property of an object, as far as it makes a difference. -/
inductive PropertyValue where
  | undefined
  | null
  | flag (value : Bool)
  | number (value : Float)
  | text (value : String)
  /-- An object or anything else that no parameter takes. -/
  | other

/-- An object, as the list of its properties. -/
structure Options where
  properties : List (String × PropertyValue)

/-- What reading a property comes to: it is not there, it has a value, or it is wrong. -/
inductive PropertyReading (α : Type) where
  | unset
  | value (a : α)
  | wrong

/-- A property that holds a keyword. -/
def readKeyword {α : Type} (ofName? : String → Option α) : PropertyValue → PropertyReading α
  | .undefined | .null => .unset
  | .text name =>
    match ofName? name with
    | some keyword => .value keyword
    | none => .wrong
  | _ => .wrong

/-- Reads a property of a kind.  Null is as good as nothing, but leaves an alignment out; a number
must be finite.  `Kind.write` is its inverse on finite values. -/
def Kind.read : (kind : Kind) → PropertyValue → PropertyReading kind.Value
  | .number, .undefined | .number, .null => .unset
  | .number, .number x => if x.isFinite then .value x else .wrong
  | .number, _ => .wrong
  | .text, .undefined | .text, .null => .unset
  | .text, .text s => .value s
  | .text, _ => .wrong
  | .flag, .undefined | .flag, .null => .unset
  | .flag, .flag b => .value b
  | .flag, _ => .wrong
  | .alignment, .null => .value none
  | .alignment, v =>
    match readKeyword Alignment.ofName? v with
    | .unset => .unset
    | .value a => .value (some a)
    | .wrong => .wrong
  | .prettyPrint, v => readKeyword PrettyPrint.ofName? v

/-- The property that holds a value of a kind. -/
def Kind.write : (kind : Kind) → kind.Value → PropertyValue
  | .number, x => .number x
  | .text, s => .text s
  | .flag, b => .flag b
  | .alignment, none => .null
  | .alignment, some a => .text (Alignment.name a)
  | .prettyPrint, p => .text (PrettyPrint.name p)

namespace Options

/-- The object without properties. -/
def empty : Options := ⟨[]⟩

/-- The property for a parameter. -/
def get (o : Options) (k : Key) : PropertyValue :=
  (o.properties.lookup k.propertyName).getD .undefined

/-- Adds the given parameters to a layer, one after the other, up to the first one that is
`wrong`. -/
def addKeys (o : Options) (layer : Overrides) : List Key → Except Key Overrides
  | [] => .ok layer
  | k :: keys =>
    match k.kind.read (o.get k) with
    | .unset => o.addKeys layer keys
    | .value v => o.addKeys (layer.set k v) keys
    | .wrong => .error k

/-- The layer that the object describes, or the first `Key` that is wrong. -/
def overrides (o : Options) : Except Key Overrides :=
  o.addKeys .empty Key.all

/-- The object that describes a configuration. -/
def ofConfig (c : Config) : Options :=
  ⟨Key.all.map fun k => (k.propertyName, k.kind.write (c.get k))⟩

/-- What is said of a property that is not of the kind of its parameter. -/
def errorMessage (k : Key) : String := "Invalid value for " ++ k.propertyName

end Options

/-- A converter that a page holds on to. -/
structure Embedding where
  converter : Converter

/-- What a page can ask for. -/
inductive Call where
  /-- A converter in place of the one so far. -/
  | create (options : Option Options)
  /-- A configuration in place of the one so far. -/
  | configure (options : Options)
  /-- The markup of a source, with options for this one time. -/
  | convert (source : List Char) (options : Option Options)
  | config

/-- What a page gets. -/
inductive Answer where
  | done
  | markup (text : List Char)
  | options (object : Options)
  /-- The parameter whose property is wrong. -/
  | wrong (key : Key)

namespace Embedding

/-- A new converter. -/
def start : Embedding := ⟨.standard⟩

/-- The layer that options describe; none at all describe the empty one. -/
def overridesOf : Option Options → Except Key Overrides
  | none => .ok .empty
  | some o => o.overrides

/-- Replaces the configuration by the standard one with options laid over it. -/
def reset (e : Embedding) (options : Option Options) : Answer × Embedding :=
  match overridesOf options with
  | .ok layer => (.done, ⟨⟨Config.ofOverrides layer⟩⟩)
  | .error key => (.wrong key, e)

/-- What one `Call` answers, and what it leaves. -/
def call (e : Embedding) : Call → Answer × Embedding
  | .create options => e.reset options
  | .configure options => e.reset (some options)
  | .convert source options =>
    match overridesOf options with
    | .ok layer => (.markup ((e.converter.withOverrides layer).convert source), e)
    | .error key => (.wrong key, e)
  | .config => (.options (.ofConfig e.converter.config), e)

/-- Calls one after the other, each on what the one before it has left. -/
def run (e : Embedding) : List Call → List Answer × Embedding
  | [] => ([], e)
  | c :: calls =>
    let (answer, next) := e.call c
    let (answers, last) := next.run calls
    (answer :: answers, last)

end Embedding

end FormulaMarkup
