import FormulaMarkup.Decimal.Shortest

/-!
# FormulaMarkup — the text of a number

Numbers are written with the digits of their shortest decimal.  What else there is to decide is a
`Form`: from where on an exponent is written, and how a whole number ends.

* **`Form.markup`** — the form of the numbers in attributes.
* **`Form.message`** — the form of the numbers in messages: never an exponent, always a point.
* **`text`** — the text of a number in a form.
-/

namespace FormulaMarkup.Decimal

/-- The digits of a positive decimal, without trailing zeros, and the place of its point: the
value is `0.digits * 10 ^ point`. -/
structure Digits where
  digits : List Char
  point : Int

/-- The digits of `s`, with the trailing zeros taken off. -/
def Digits.ofScientific (s : Scientific) : Digits :=
  let all := Nat.toDigits 10 s.digits
  ⟨(all.reverse.dropWhile (· == '0')).reverse, all.length + s.exponent⟩

/-- How a number is written.  A number whose point lies at or before `exponentUpTo`, or after
`exponentFrom`, is written with an exponent; without these bounds none is.  `whole` ends the
digits of a whole number. -/
structure Form where
  exponentUpTo : Option Int
  exponentFrom : Option Int
  whole : List Char

/-- Attributes show up to 21 digits before the point and up to five zeros after it; a whole number
has no point. -/
def Form.markup : Form := ⟨some (-6), some 21, []⟩

/-- Messages never show an exponent, and a whole number ends in a point and a zero. -/
def Form.message : Form := ⟨none, none, ['.', '0']⟩

/-- Whether a number with this point is written with an exponent. -/
def Form.usesExponent (f : Form) (point : Int) : Bool :=
  f.exponentUpTo.any (fun low => decide (point ≤ low))
    || f.exponentFrom.any (fun high => decide (high < point))

/-- An integer with a sign only if it is negative. -/
def intText (n : Int) : List Char :=
  if n < 0 then '-' :: Nat.toDigits 10 n.natAbs else Nat.toDigits 10 n.natAbs

/-- One digit, the point and the other digits if there are any, and the exponent. -/
def Digits.exponentText (d : Digits) : List Char :=
  d.digits.take 1 ++ (if d.digits.length ≤ 1 then [] else '.' :: d.digits.drop 1)
    ++ 'e' :: intText (d.point - 1)

/-- All digits in their places, filled up with zeros on either side of the point. -/
def Digits.positionalText (d : Digits) (whole : List Char) : List Char :=
  if d.point ≤ 0 then
    '0' :: '.' :: List.replicate (-d.point).toNat '0' ++ d.digits
  else if d.digits.length ≤ d.point.toNat then
    d.digits ++ List.replicate (d.point.toNat - d.digits.length) '0' ++ whole
  else
    d.digits.take d.point.toNat ++ '.' :: d.digits.drop d.point.toNat

/-- The text of digits in the form that suits their point. -/
def Digits.text (d : Digits) (f : Form) : List Char :=
  if f.usesExponent d.point then d.exponentText else d.positionalText f.whole

/-- The three fields of a number of the format binary64. -/
structure Fields where
  negative : Bool
  exponentBits : Nat
  fractionBits : Nat

/-- The fields of a number, from its bits. -/
def Fields.of (x : Float) : Fields :=
  let bits := x.toBits.toNat
  ⟨bits / Nat.pow 2 63 == 1, bits / Nat.pow 2 52 % Nat.pow 2 11, bits % Nat.pow 2 52⟩

/-- The text of a number: `NaN` without a sign, `inf`, zero and the finite numbers with a minus
sign if their sign bit is set. -/
def text (f : Form) (x : Float) : List Char :=
  let fields := Fields.of x
  let sign := if fields.negative then ['-'] else []
  if fields.exponentBits = 2047 then
    if fields.fractionBits = 0 then sign ++ "inf".toList else "NaN".toList
  else
    match Binary.ofBits fields.exponentBits fields.fractionBits with
    | none => sign ++ '0' :: f.whole
    | some b => sign ++ (Digits.ofScientific b.shortest).text f

/-- The text of a number in an attribute. -/
def markupText (x : Float) : List Char :=
  text .markup x

/-- The text of a number in a message. -/
def messageText (x : Float) : List Char :=
  text .message x

end FormulaMarkup.Decimal
