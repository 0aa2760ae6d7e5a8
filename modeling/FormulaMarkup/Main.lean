import FormulaMarkup.CommandLine.Run

/-!
# FormulaMarkup — the program

Reads what the arguments name, lets `run` decide everything, and writes what it leaves behind.
-/

open FormulaMarkup CommandLine

/-- Reads a file, or says why that is not possible. -/
def readContent (path : String) : IO FileContent := do
  try
    return .bytes (← IO.FS.readBinFile path)
  catch
    | .noFileOrDirectory .. => return .missing
    | .inappropriateType _ 21 _ => return .directory
    | e => return .unreadable (toString e)

/-- Reads the standard input up to its end. -/
def readInput : IO FileContent := do
  try
    return .bytes (← (← IO.getStdin).readBinToEnd)
  catch e => return .unreadable (toString e)

/-- Reads the files that the arguments ask for, runs, and writes what the run says. -/
def main (arguments : List String) : IO UInt32 := do
  let none := FileContent.bytes .empty
  let mut file := none
  let mut input := none
  match Request.ofArguments arguments with
  | .ok (.convert a) =>
    if let some path := a.configFile then
      file ← readContent path
    if a.formula.isNone then
      input ← readInput
  | _ => pure ()
  let content := file
  let outcome := run arguments (fun _ => content) input
  IO.print (String.ofList outcome.stdout)
  IO.eprint (String.ofList outcome.stderr)
  return UInt32.ofNat outcome.code
