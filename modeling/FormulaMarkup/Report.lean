import FormulaMarkup.Text.Width

/-!
# FormulaMarkup — reports that point into a file

A report shows the line that holds an error, marks the part that is wrong and writes the message
below it.  The part lies within one line.

* **`Report.lines`** — the lines of a file, at any kind of line break.
* **`Report.render`** — the whole report.
-/

namespace FormulaMarkup.Report

open Text

/-- A part of a file, by the numbers of characters before its start and before its stop. -/
structure Part where
  start : Nat
  stop : Nat

/-- Whether a character ends a line. -/
def isLineEnd (c : Char) : Bool :=
  ['\n', '\r', '\x0b', '\x0c', '\u0085', '\u2028', '\u2029'].contains c

/-- The lines of a file with the characters that end them.  A carriage return and a line feed end
a line together. -/
def lines : List Char → List (List Char)
  | [] => [[]]
  | '\r' :: '\n' :: s => ['\r', '\n'] :: lines s
  | c :: s =>
    if isLineEnd c then [c] :: lines s
    else
      match lines s with
      | [] => [[c]]
      | line :: others => (c :: line) :: others

/-- The number of the line that holds a position, counted from one, the line itself, and the
position in it. -/
def locate (number position : Nat) : List (List Char) → Nat × List Char × Nat
  | [] => (number, [], position)
  | line :: others =>
    if position < line.length || others.isEmpty then (number, line, position)
    else locate (number + 1) (position - line.length) others

/-- What a line shows of a character: blanks in place of any kind of blank. -/
def shown (c : Char) (column : Nat) : List Char :=
  if isBlank c then List.replicate (width c column) ' ' else [c]

/-- A line as it is shown. -/
def shownLine (line : List Char) : List Char :=
  (line.zipIdx).flatMap fun (c, column) => shown c column

/-- One row of marks below a line: `mark` gives the character at the start of a column and the one
that fills it up.  The row goes up to column `stop`; columns after the end of the line are one
character wide. -/
def marks (line : List Char) (mark : Nat → Char × Char) (stop : Nat) : List Char :=
  let columns := (line.map some ++ List.replicate stop none).take stop
  columns.zipIdx.flatMap fun (c?, column) =>
    let (first, fill) := mark column
    match (c?.map (width · column)).getD 1 with
    | 0 => []
    | w + 1 => first :: List.replicate w fill

/-- The row that underlines the columns from `start` to `stop`, with a branch at `middle`. -/
def underline (line : List Char) (start stop middle : Nat) : List Char :=
  marks line (fun column =>
    if column = middle then ('┬', '─')
    else if start ≤ column && column < stop then ('─', '─')
    else (' ', ' ')) (stop + 2)

/-- The row that leads from the branch to the message. -/
def connector (line : List Char) (stop middle : Nat) : List Char :=
  marks line (fun column =>
    if column = middle then ('╰', '─')
    else if middle < column then ('─', '─')
    else (' ', ' ')) (stop + 2)

/-- The report about a part of a file. -/
def render (title : List Char) (name : List Char) (source : List Char) (part : Part)
    (message : List Char) : List Char :=
  let (number, line, start) := locate 1 part.start (lines source)
  let stop := start + (part.stop - part.start)
  let middle := (start + stop) / 2
  -- marks may go beyond the text that is shown
  let line := trimBlankEnd line
  let digits := Nat.toDigits 10 number
  let gutter := ' ' :: List.replicate digits.length ' ' ++ [' ']
  "Error: ".toList ++ title ++ ['\n']
    ++ gutter ++ "╭─[ ".toList ++ name ++ ':' :: digits ++ ':' :: Nat.toDigits 10 (start + 1)
    ++ " ]\n".toList
    ++ gutter ++ "│\n".toList
    ++ ' ' :: digits ++ " │ ".toList ++ shownLine line ++ ['\n']
    ++ gutter ++ "│ ".toList ++ underline line start stop middle ++ ['\n']
    ++ gutter ++ "│ ".toList ++ connector line stop middle ++ ' ' :: message ++ ['\n']
    ++ List.replicate (digits.length + 2) '─' ++ "╯\n".toList

end FormulaMarkup.Report
