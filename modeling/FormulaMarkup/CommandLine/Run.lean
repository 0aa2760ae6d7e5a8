import FormulaMarkup.CommandLine.Arguments
import FormulaMarkup.ConfigFile
import FormulaMarkup.Convert

/-!
# FormulaMarkup — running the command line

A run converts one formula, which is an argument or else all of the standard input.  The standard
configuration is changed by the configuration file first and by the switches after it, so that a
switch always wins.

* **`Arguments.overrides`** — the layer that the switches describe.
* **`run`** — what a run writes, and the code it ends with.
-/

namespace FormulaMarkup.CommandLine

/-- What a run leaves behind. -/
structure Outcome where
  code : Nat
  stdout : List Char
  stderr : List Char

namespace Outcome

/-- A run that wrote its result. -/
def success (text : List Char) : Outcome := ⟨0, text, []⟩

/-- A run that failed. -/
def failure (code : Nat) (message : List Char) : Outcome := ⟨code, [], message⟩

end Outcome

/-- The layer that the switches describe. -/
def Arguments.overrides (a : Arguments) : Overrides where
  get
    | .displayMode =>
      if a.switches.contains .inline then some false
      else if a.switches.contains .block then some true
      else none
    | .prettyPrint => if a.switches.contains .pretty then some PrettyPrint.always else none
    | .annotate => if a.switches.contains .annotate then some true else none
    | .useMunderover => if a.switches.contains .noMunderover then some false else none
    | .useOperatorSpacing => if a.switches.contains .operatorSpacing then some true else none
    | _ => none

/-- The help text. -/
def helpText : String :=
  "Converts TeX-like math notation to MathML\n\n" ++
  "Usage: mathtype [OPTIONS] [FORMULA]\n\n" ++
  "Arguments:\n" ++
  "  [FORMULA]  The formula to convert; read from stdin if omitted\n\n" ++
  "Options:\n" ++
  "  -c, --config <FILE>     Reads rendering parameters from a TOML file\n" ++
  "  -i, --inline            Sets the display style for the formula to \"inline\"\n" ++
  "  -b, --block             Sets the display style for the formula to \"block\"\n" ++
  "      --pretty            Adds newlines and indentation to the output\n" ++
  "      --annotation        Includes the source as an annotation\n" ++
  "      --no-munderover     Puts the limits of large operators beside them instead of " ++
  "under and over\n" ++
  "      --operator-spacing  Adds explicit spacing around operators\n" ++
  "  -h, --help              Print help\n" ++
  "  -V, --version           Print version\n"

/-- The name and version of the program. -/
def versionText : String := "mathtype-cli 0.1.0\n"

/-- The outcome for arguments that are wrong. -/
def usageFailure (e : UsageError) : Outcome :=
  .failure 2 (e.message.toList ++ ['\n'])

/-- The outcome for a configuration file, of the given name, that cannot be used.  A file that
cannot be read is a different failure from one that is wrong. -/
def configFailure (name : List Char) : LoadError → Outcome
  | .file e =>
    .failure 1 ("IO Error in '".toList ++ name ++ "': ".toList ++ e.message.toList ++ ['\n'])
  | .malformed => .failure 2 (LoadError.malformed.report name ++ ['\n'])
  | .field source part e => .failure 2 ((LoadError.field source part e).report name)

/-- The outcome for a standard input that cannot be read. -/
def inputFailure (e : FileError) : Outcome :=
  .failure 1 ("IO Error: ".toList ++ e.message.toList ++ ['\n'])

/-- The layer of the configuration file, if there is one. -/
def Arguments.fileOverrides (a : Arguments) (file : String → FileContent) :
    Except LoadError Overrides :=
  match a.configFile with
  | none => .ok .empty
  | some name => Overrides.ofFile (file name)

/-- The formula to convert: the argument as it is, or the standard input without the blanks at its
end. -/
def Arguments.source (a : Arguments) (stdin : FileContent) : Except FileError (List Char) :=
  match a.formula with
  | some formula => .ok formula.toList
  | none => stdin.text.map Text.trimBlankEnd

/-- Converts the formula of the arguments. -/
def convertArguments (a : Arguments) (file : String → FileContent) (stdin : FileContent) :
    Outcome :=
  match a.fileOverrides file with
  | .error e => configFailure (a.configFile.getD "").toList e
  | .ok layer =>
    let config := (Config.standard.overlay layer).overlay a.overrides
    match a.source stdin with
    | .error e => inputFailure e
    | .ok source => .success ((Converter.mk config).convert source ++ ['\n'])

/-- What a run with these arguments leaves behind, given the files and the standard input. -/
def run (arguments : List String) (file : String → FileContent) (stdin : FileContent) : Outcome :=
  match Request.ofArguments arguments with
  | .error e => usageFailure e
  | .ok .help => .success helpText.toList
  | .ok .version => .success versionText.toList
  | .ok (.convert a) => convertArguments a file stdin

end FormulaMarkup.CommandLine
