/-!
# FormulaMarkup — the arguments of the command line

Arguments are taken from left to right.  An option may come as a word of its own or, by its letter,
in a cluster with others; after a double hyphen everything is a formula.

* **`Request.ofArguments`** — what the arguments ask for, or the first thing that is wrong with
  them.
* **`UsageError.message`** — how that is said.
-/

namespace FormulaMarkup.CommandLine

/-- The options without a value. -/
inductive Switch where
  | inline | block | pretty | annotate | noMunderover | operatorSpacing
  deriving DecidableEq, Repr

namespace Switch

/-- All switches. -/
def all : List Switch := [.inline, .block, .pretty, .annotate, .noMunderover, .operatorSpacing]

/-- The name of a switch, after two hyphens. -/
def name : Switch → String
  | .inline => "inline"
  | .block => "block"
  | .pretty => "pretty"
  | .annotate => "annotation"
  | .noMunderover => "no-munderover"
  | .operatorSpacing => "operator-spacing"

/-- A switch as it is written. -/
def shown (s : Switch) : String := "--" ++ s.name

end Switch

/-- Everything that can stand after hyphens. -/
inductive Parameter where
  | switch (s : Switch)
  /-- The one option with a value. -/
  | config
  | help
  | version
  deriving DecidableEq, Repr

namespace Parameter

/-- The parameter with this name in its long form. -/
def ofName? (name : String) : Option Parameter :=
  if name = "config" then some .config
  else if name = "help" then some .help
  else if name = "version" then some .version
  else (Switch.all.find? (·.name = name)).map .switch

/-- The parameter with this letter in its short form, if it has one. -/
def ofLetter? (letter : Char) : Option Parameter :=
  if letter = 'c' then some .config
  else if letter = 'i' then some (.switch .inline)
  else if letter = 'b' then some (.switch .block)
  else if letter = 'h' then some .help
  else if letter = 'V' then some .version
  else none

/-- A parameter as messages show it. -/
def shown : Parameter → String
  | .switch s => s.shown
  | .config => "--config <FILE>"
  | .help => "--help"
  | .version => "--version"

end Parameter

/-- What can be wrong with the arguments. -/
inductive UsageError where
  | unexpectedArgument (argument : String)
  | conflict (first second : Switch)
  | repeated (parameter : Parameter)
  | missingValue
  | unexpectedValue (value : String) (parameter : Parameter)
  deriving DecidableEq, Repr

/-- What a run says about arguments that it does not accept. -/
def UsageError.message : UsageError → String
  | .unexpectedArgument argument => "error: unexpected argument '" ++ argument ++ "' found"
  | .conflict first second =>
    "error: the argument '" ++ first.shown ++ "' cannot be used with '" ++ second.shown ++ "'"
  | .repeated parameter =>
    "error: the argument '" ++ parameter.shown ++ "' cannot be used multiple times"
  | .missingValue =>
    "error: a value is required for '" ++ Parameter.config.shown ++ "' but none was supplied"
  | .unexpectedValue value parameter =>
    "error: unexpected value '" ++ value ++ "' for '" ++ parameter.shown
      ++ "' found; no more were expected"

/-- What the arguments say about a conversion: the formula, the configuration file, and the
switches in their order. -/
structure Arguments where
  formula : Option String
  configFile : Option String
  switches : List Switch
  deriving DecidableEq, Repr

/-- What the arguments ask for. -/
inductive Request where
  | help
  | version
  | convert (arguments : Arguments)
  deriving DecidableEq, Repr

/-- Why the arguments are read no further. -/
inductive Halt where
  | help
  | version
  | wrong (e : UsageError)

/-- The option with a value, while it waits: first for its value, and then, with it, to be taken up
when the next argument is looked at. -/
inductive Waiting where
  | nothing
  | forValue
  | withValue (value : String)
  deriving DecidableEq, Repr

/-- The arguments that have been read. -/
structure Progress where
  formula : Option String
  configFile : Option String
  switches : List Switch
  waiting : Waiting
  /-- Whether a double hyphen has been read. -/
  onlyFormula : Bool

namespace Progress

/-- Nothing has been taken up. -/
def start : Progress := ⟨none, none, [], .nothing, false⟩

/-- Takes up the name of a configuration file, which may be there once and must not be empty. -/
def putConfigFile (p : Progress) (value : String) : Except Halt Progress :=
  if p.configFile.isSome then .error (.wrong (.repeated .config))
  else if value.isEmpty then .error (.wrong .missingValue)
  else .ok { p with configFile := some value }

/-- What waits for a value is settled before something else is taken up. -/
def settle (p : Progress) : Except Halt Progress :=
  match p.waiting with
  | .nothing => .ok p
  | .forValue => .error (.wrong .missingValue)
  | .withValue value => { p with waiting := .nothing }.putConfigFile value

/-- Takes up a switch, which may be there once. -/
def putSwitch (p : Progress) (s : Switch) : Except Halt Progress :=
  if p.switches.contains s then .error (.wrong (.repeated (.switch s)))
  else .ok { p with switches := p.switches ++ [s] }

/-- Takes up a parameter without a value, once nothing waits any more. -/
def putParameter (p : Progress) (parameter : Parameter) : Except Halt Progress :=
  match p.settle with
  | .error e => .error e
  | .ok p =>
    match parameter with
    | .switch s => p.putSwitch s
    | .config => .ok { p with waiting := .forValue }
    | .help => .error .help
    | .version => .error .version

/-- Takes up the option with a value that is attached to it. -/
def putAttached (p : Progress) (value : String) : Except Halt Progress :=
  match p.settle with
  | .error e => .error e
  | .ok p => p.putConfigFile value

/-- Takes up a formula.  There can be one only. -/
def putFormula (p : Progress) (argument : String) : Except Halt Progress :=
  if p.formula.isSome then .error (.wrong (.unexpectedArgument argument))
  else
    match p.settle with
    | .error e => .error e
    | .ok p => .ok { p with formula := some argument }

/-- Takes up an argument with two hyphens, given without them: a name, and a value if there is a
sign of equality. -/
def putLong (p : Progress) (argument : List Char) : Except Halt Progress :=
  let name := String.ofList (argument.takeWhile (· != '='))
  match Parameter.ofName? name, argument.dropWhile (· != '=') with
  | none, _ => .error (.wrong (.unexpectedArgument ("--" ++ name)))
  | some parameter, [] => p.putParameter parameter
  | some .config, _ :: value => p.putAttached (String.ofList value)
  | some parameter, _ :: value =>
    .error (.wrong (.unexpectedValue (String.ofList value) parameter))

/-- Takes up a cluster of letters.  What follows the letter of the option with a value is its value,
with or without a sign of equality before it. -/
def putCluster (p : Progress) : List Char → Except Halt Progress
  | [] => .ok p
  | letter :: letters =>
    match Parameter.ofLetter? letter with
    | none => .error (.wrong (.unexpectedArgument (String.ofList ['-', letter])))
    | some .config =>
      match letters with
      | [] => p.putParameter .config
      -- the rest of the cluster is the value, not further letters
      | '=' :: value => p.putAttached (String.ofList value)
      | value => p.putAttached (String.ofList value)
    | some parameter =>
      match p.putParameter parameter with
      | .ok p => p.putCluster letters
      | .error e => .error e

/-- Takes up one argument, by its hyphens. -/
def put (p : Progress) (argument : String) : Except Halt Progress :=
  if p.onlyFormula then p.putFormula argument
  else
    match argument.toList with
    -- what waits for a value goes on waiting, but no value can follow any more
    | ['-', '-'] => .ok { p with onlyFormula := true }
    | '-' :: '-' :: long => p.putLong long
    | '-' :: letter :: letters => p.putCluster (letter :: letters)
    -- a single hyphen is an ordinary word
    | _ =>
      if p.waiting = .forValue then .ok { p with waiting := .withValue argument }
      else p.putFormula argument

/-- Takes up all arguments, in their order. -/
def putAll (p : Progress) : List String → Except Halt Progress
  | [] => p.settle
  | argument :: arguments =>
    match p.put argument with
    | .ok p => p.putAll arguments
    | .error e => .error e

/-- Refuses the two switches that exclude each other; the one that came first is named first. -/
def finish (p : Progress) : Except UsageError Arguments :=
  match p.switches.filter fun s => s = .inline || s = .block with
  | first :: second :: _ => .error (.conflict first second)
  | _ => .ok ⟨p.formula, p.configFile, p.switches⟩

end Progress

/-- What the arguments ask for.  Help and version are given as soon as they are asked for, whatever
comes after. -/
def Request.ofArguments (arguments : List String) : Except UsageError Request :=
  match Progress.start.putAll arguments with
  | .error .help => .ok .help
  | .error .version => .ok .version
  | .error (.wrong e) => .error e
  | .ok p => p.finish.map .convert

end FormulaMarkup.CommandLine
