import FormulaMarkup.Text.Unprintable

/-!
# FormulaMarkup — quoted texts in messages

A message shows a text that comes from the input between double quotes, so that its ends and its
control characters can be seen.  The quote and the backslash are escaped by a backslash, the four
common controls have letters of their own, and an unprintable character is given by its code point
in hexadecimal.
-/

namespace FormulaMarkup.Text

/-- An unprintable character: a backslash, the letter `u` and the code point of `c` in braces, in
lower-case hexadecimal digits without leading zeros. -/
def codePointText (c : Char) : List Char :=
  '\\' :: 'u' :: '{' :: Nat.toDigits 16 c.toNat ++ ['}']

/-- One character inside a quoted text.  The apostrophe is not escaped. -/
def quoteChar (c : Char) : List Char :=
  if c = '"' then ['\\', '"']
  else if c = '\\' then ['\\', '\\']
  else if c = '\n' then ['\\', 'n']
  else if c = '\r' then ['\\', 'r']
  else if c = '\t' then ['\\', 't']
  else if c = '\x00' then ['\\', '0']
  else if isUnprintable c then codePointText c
  else [c]

/-- A text between quotes, as messages show it. -/
def quoted (s : List Char) : List Char :=
  '"' :: s.flatMap quoteChar ++ ['"']

end FormulaMarkup.Text
