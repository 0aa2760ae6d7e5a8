/-!
# FormulaMarkup — reading decimals

The number nearest to a decimal.  Exponents that lie far outside the format are answered without
computing the power.
-/

namespace FormulaMarkup.Decimal

/-- The natural number of a run of decimal digits. -/
def ofDigits (digits : List Char) : Nat :=
  digits.foldl (fun n c => 10 * n + (c.toNat - '0'.toNat)) 0

/-- The number nearest to `digits * 10 ^ exponent`, or nothing if that lies beyond the largest
finite number. -/
def nearest? (digits : List Char) (exponent : Int) : Option Float :=
  let significant := digits.dropWhile (· == '0')
  let point := significant.length + exponent
  if significant.isEmpty || point < -400 then some 0.0
  else if 400 < point then none
  else
    let x := Float.ofScientific (ofDigits significant) (decide (exponent < 0)) exponent.natAbs
    if x.isFinite then some x else none

end FormulaMarkup.Decimal
