import FormulaMarkup.Decimal.Read

/-!
# FormulaMarkup — the tokens of a configuration file

Configuration files are written in TOML, version 1.1.  This module reads its tokens: blanks,
comments, texts and the words that stand for numbers, flags and dates.  Every reading function
answers nothing where its token is malformed, and otherwise the value and the input after it.
-/

namespace FormulaMarkup.Toml

/-- A blank inside a line. -/
def isSpace (c : Char) : Bool := c == ' ' || c == '\t'

/-- A control character that may stand neither in a comment nor in a text. -/
def isControl (c : Char) : Bool :=
  (c.toNat < 0x20 && c != '\t') || c.toNat == 0x7F

/-- The input after blanks in a line. -/
def skipSpace (s : List Char) : List Char := s.dropWhile isSpace

/-- The input after a line break, if it starts with one. -/
def lineBreak? : List Char → Option (List Char)
  | '\n' :: s => some s
  | '\r' :: '\n' :: s => some s
  | _ => none

/-- The input after blanks, line breaks and comments.  `inComment` says whether a comment has been
opened. -/
def skipLines (inComment : Bool) : List Char → Option (List Char)
  | [] => some []
  | '\n' :: s => skipLines false s
  | '\r' :: '\n' :: s => skipLines false s
  | c :: s =>
    if inComment then if isControl c then none else skipLines true s
    else if isSpace c then skipLines false s
    else if c = '#' then skipLines true s
    else some (c :: s)

/-- The input after the rest of a line, where only blanks and a comment may stand. -/
def endLine (inComment : Bool) : List Char → Option (List Char)
  | [] => some []
  | '\n' :: s => some s
  | '\r' :: '\n' :: s => some s
  | c :: s =>
    if inComment then if isControl c then none else endLine true s
    else if isSpace c then endLine false s
    else if c = '#' then endLine true s
    else none

/-! ## Texts

There are four forms of texts: with double quotes, in which characters can be escaped, or with
single ones, and of both one for a line and one for several lines. -/

/-- The value of a hexadecimal digit. -/
def hexDigit? (c : Char) : Option Nat :=
  if c.isDigit then some (c.toNat - '0'.toNat)
  else if 'a' ≤ c ∧ c ≤ 'f' then some (c.toNat - 'a'.toNat + 10)
  else if 'A' ≤ c ∧ c ≤ 'F' then some (c.toNat - 'A'.toNat + 10)
  else none

/-- The number of hexadecimal digits. -/
def hexNumber? (digits : List Char) : Option Nat :=
  digits.foldlM (fun n c => (hexDigit? c).map (16 * n + ·)) 0

/-- The character whose code point is given by the next `count` hexadecimal digits. -/
def codePoint? (count : Nat) (s : List Char) : Option (Char × List Char) :=
  let digits := s.take count
  if digits.length = count then
    match hexNumber? digits with
    | some n => if n.isValidChar then some (Char.ofNat n, s.drop count) else none
    | none => none
  else none

/-- The character of an escape, after its backslash. -/
def escape? : List Char → Option (Char × List Char)
  | 'b' :: s => some ('\x08', s)
  | 't' :: s => some ('\t', s)
  | 'n' :: s => some ('\n', s)
  | 'f' :: s => some ('\x0c', s)
  | 'r' :: s => some ('\r', s)
  | 'e' :: s => some ('\x1b', s)
  | '"' :: s => some ('"', s)
  | '\\' :: s => some ('\\', s)
  | 'x' :: s => codePoint? 2 s
  | 'u' :: s => codePoint? 4 s
  | 'U' :: s => codePoint? 8 s
  | _ => none

/-- Puts a character in front of a text that has been read. -/
def consText (c : Char) : Option (List Char × List Char) → Option (List Char × List Char)
  | some (text, s) => some (c :: text, s)
  | none => none

/-- A text between double quotes, after the first of them.  It takes at most `fuel` characters. -/
def basicText? (fuel : Nat) (s : List Char) : Option (List Char × List Char) :=
  match fuel, s with
  | 0, _ | _, [] => none
  | _ + 1, '"' :: s => some ([], s)
  | fuel + 1, '\\' :: s =>
    match escape? s with
    | some (c, s) => consText c (basicText? fuel s)
    | none => none
  | fuel + 1, c :: s => if isControl c then none else consText c (basicText? fuel s)

/-- A text between apostrophes, after the first of them.  Nothing in it is escaped. -/
def literalText? : List Char → Option (List Char × List Char)
  | [] => none
  | '\'' :: s => some ([], s)
  | c :: s => if isControl c then none else consText c (literalText? s)

/-- The end of a text of several lines: three quotes, before which up to two more may stand that
are part of the text. -/
def closing? (quote : Char) (s : List Char) : Option (List Char × List Char) :=
  let run := (s.takeWhile (· == quote)).length
  if run < 3 then none
  else
    let own := min (run - 3) 2
    some (List.replicate own quote, s.drop (own + 3))

/-- The input after the blanks and line breaks that an escaped line break swallows, if there is
one. -/
def swallowed? (s : List Char) : Option (List Char) :=
  match lineBreak? (skipSpace s) with
  | some t => some (t.dropWhile fun c => isSpace c || c == '\n' || c == '\r')
  | none => none

/-- A text of several lines, after its opening quotes.  Only between double quotes are escapes
read. -/
def linesText? (quote : Char) (fuel : Nat) (s : List Char) : Option (List Char × List Char) :=
  match fuel with
  | 0 => none
  | fuel + 1 =>
    match closing? quote s with
    | some result => some result
    | none =>
      match s with
      | [] => none
      | c :: t =>
        if c = '\\' && quote = '"' then
          match swallowed? t with
          | some u => linesText? quote fuel u
          | none =>
            match escape? t with
            | some (x, u) => consText x (linesText? quote fuel u)
            | none => none
        else if c = '\r' then
          match t with
          | '\n' :: u => consText c (consText '\n' (linesText? quote fuel u))
          | _ => none
        else if c = '\n' then consText c (linesText? quote fuel t)
        else if isControl c then none
        else consText c (linesText? quote fuel t)

/-- The line break directly after the opening quotes is not part of a text. -/
def dropFirstBreak (s : List Char) : List Char :=
  (lineBreak? s).getD s

/-- A text of any of the four forms. -/
def text? (s : List Char) : Option (List Char × List Char) :=
  match s with
  | '"' :: '"' :: '"' :: t => linesText? '"' (s.length + 1) (dropFirstBreak t)
  | '\'' :: '\'' :: '\'' :: t => linesText? '\'' (s.length + 1) (dropFirstBreak t)
  | '"' :: t => basicText? s.length t
  | '\'' :: t => literalText? t
  | _ => none

/-! ## Keys

A key may be a text in quotes or stand bare. -/

/-- A character that a bare key may have. -/
def isBareKey (c : Char) : Bool := c.isAlphanum || c == '-' || c == '_'

/-- A key without dots, or one part of a key with dots, and the input after it. -/
def keyPart? (s : List Char) : Option (List Char × List Char) :=
  match s with
  | '"' :: t => basicText? s.length t
  | '\'' :: t => literalText? t
  | _ =>
    let name := s.takeWhile isBareKey
    if name.isEmpty then none else some (name, s.dropWhile isBareKey)

/-! ## Numbers

Numbers are read exactly, as digits with an exponent, and rounded once in the end. -/

/-- The digits of a run in which underscores may stand between two digits. -/
def digits? (isDigit : Char → Bool) : List Char → Option (List Char)
  | [] => none
  | [c] => if isDigit c then some [c] else none
  | c :: '_' :: s =>
    if isDigit c then (digits? isDigit s).map (c :: ·) else none
  | c :: s => if isDigit c then (digits? isDigit s).map (c :: ·) else none

/-- The digits of a decimal number without leading zeros. -/
def wholeDigits? (s : List Char) : Option (List Char) :=
  match digits? Char.isDigit s with
  | some ('0' :: _ :: _) => none
  | other => other

/-- A number without its sign. -/
inductive Magnitude where
  | whole (n : Nat)
  /-- Nothing stands for a number beyond the largest finite one. -/
  | real (x : Option Float)

/-- The number of a run of digits in the given base. -/
def radixNumber? (base : Nat) (s : List Char) : Option Nat :=
  match digits? (fun c => (hexDigit? c).any (· < base)) s with
  | some digits => digits.foldlM (fun n c => (hexDigit? c).map (base * n + ·)) 0
  | none => none

/-- An exponent with its sign, after its letter. -/
def exponent? (s : List Char) : Option Int :=
  match s with
  | '-' :: t => (digits? Char.isDigit t).map fun d => -(Decimal.ofDigits d : Int)
  | '+' :: t => (digits? Char.isDigit t).map fun d => (Decimal.ofDigits d : Int)
  | t => (digits? Char.isDigit t).map fun d => (Decimal.ofDigits d : Int)

/-- A decimal number: whole digits, and then digits after a point, an exponent or both. -/
def decimal? (s : List Char) : Option Magnitude :=
  let isMark := fun c => c == '.' || c == 'e' || c == 'E'
  match wholeDigits? (s.takeWhile (!isMark ·)), s.dropWhile (!isMark ·) with
  | some whole, [] => some (.whole (Decimal.ofDigits whole))
  | some whole, '.' :: t =>
    let isExponent := fun c => c == 'e' || c == 'E'
    match digits? Char.isDigit (t.takeWhile (!isExponent ·)), t.dropWhile (!isExponent ·) with
    | some fraction, [] =>
      some (.real (Decimal.nearest? (whole ++ fraction) (-fraction.length)))
    | some fraction, _ :: u =>
      (exponent? u).map fun e =>
        .real (Decimal.nearest? (whole ++ fraction) (e - fraction.length))
    | none, _ => none
  | some whole, _ :: t => (exponent? t).map fun e => .real (Decimal.nearest? whole e)
  | none, _ => none

/-! ## Dates and times

No parameter holds a date, but a file with a malformed one is malformed.  So dates are checked and
dropped. -/

/-- The number of exactly two digits and the input after them. -/
def twoDigits? : List Char → Option (Nat × List Char)
  | a :: b :: s => if a.isDigit && b.isDigit then some (Decimal.ofDigits [a, b], s) else none
  | _ => none

/-- The number of days of a month. -/
def daysOf (year month : Nat) : Nat :=
  if month = 2 then
    if (year % 4 = 0 ∧ year % 100 ≠ 0) ∨ year % 400 = 0 then 29 else 28
  else if month ∈ [4, 6, 9, 11] then 30 else 31

/-- The input after a day of the calendar. -/
def date? : List Char → Option (List Char)
  | a :: b :: c :: d :: '-' :: s =>
    if [a, b, c, d].all Char.isDigit then
      match twoDigits? s with
      | some (month, '-' :: t) =>
        match twoDigits? t with
        | some (day, u) =>
          if 1 ≤ month ∧ month ≤ 12 ∧ 1 ≤ day
              ∧ day ≤ daysOf (Decimal.ofDigits [a, b, c, d]) month then some u
          else none
        | none => none
      | _ => none
    else none
  | _ => none

/-- The input after the fraction of a second, if there is one. -/
def fraction? : List Char → Option (List Char)
  | '.' :: s =>
    if s.head?.any Char.isDigit then some (s.dropWhile Char.isDigit) else none
  | s => some s

/-- The input after a time of day.  The seconds may be left out. -/
def time? (s : List Char) : Option (List Char) :=
  match twoDigits? s with
  | some (hour, ':' :: t) =>
    match twoDigits? t with
    | some (minute, u) =>
      if hour < 24 ∧ minute < 60 then
        match u with
        | ':' :: v =>
          match twoDigits? v with
          | some (second, w) => if second ≤ 60 then fraction? w else none
          | none => none
        | _ => some u
      else none
    | none => none
  | _ => none

/-- Whether the rest of a date is an offset, or nothing. -/
def isOffset : List Char → Bool
  | [] | ['Z'] | ['z'] => true
  | c :: s =>
    (c == '+' || c == '-') &&
      match twoDigits? s with
      | some (hour, ':' :: t) =>
        match twoDigits? t with
        | some (minute, []) => hour < 24 && minute < 60
        | _ => false
      | _ => false

/-- Whether a word is a date, a time or both. -/
def isMoment (word : List Char) : Bool :=
  match date? word with
  | some [] => true
  | some (c :: s) =>
    (c == 'T' || c == 't' || c == ' ') &&
      match time? s with
      | some rest => isOffset rest
      | none => false
  | none => time? word == some []

end FormulaMarkup.Toml
