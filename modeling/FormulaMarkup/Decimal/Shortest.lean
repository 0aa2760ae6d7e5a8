/-!
# FormulaMarkup — the shortest decimal of a binary number

A number of the format binary64 stands for all reals that round to it.  Its shortest decimal is the
one with the fewest digits among them, and of several with that many digits the one nearest to the
number itself; of two that are equally near, the one with an even last digit.

* **`Binary`** — a positive finite number, as an integer times a power of two.
* **`Binary.ofBits`** — the number of a bit pattern without its sign.
* **`Binary.shortest`** — its shortest decimal, found grid by grid in exact arithmetic.
-/

namespace FormulaMarkup.Decimal

/-- The positive number `significand * 2 ^ exponent`.  `even` says that the ends of the interval
that rounds to it belong to it, and `atEdge` that the next smaller number is only half as far away
as the next larger one. -/
structure Binary where
  significand : Nat
  exponent : Int
  even : Bool
  atEdge : Bool

/-- The number whose exponent and fraction bits are given, or nothing if it is zero.  A zero
exponent field stands for the subnormal numbers, which have no hidden bit. -/
def Binary.ofBits (exponentBits fractionBits : Nat) : Option Binary :=
  if exponentBits = 0 then
    if fractionBits = 0 then none
    else some ⟨fractionBits, -1074, fractionBits % 2 == 0, false⟩
  else
    some ⟨fractionBits + Nat.pow 2 52, (exponentBits : Int) - 1075, fractionBits % 2 == 0,
      fractionBits == 0 && 1 < exponentBits⟩

/-- The positive rational `numerator / denominator`. -/
structure Ratio where
  numerator : Nat
  denominator : Nat

/-- `n * 2 ^ e` as a rational. -/
def Ratio.scaled (n : Nat) (e : Int) : Ratio :=
  if 0 ≤ e then ⟨n * Nat.pow 2 e.toNat, 1⟩ else ⟨n, Nat.pow 2 (-e).toNat⟩

/-- The rational divided by `10 ^ p`. -/
def Ratio.divPowTen (r : Ratio) (p : Int) : Ratio :=
  if 0 ≤ p then ⟨r.numerator, r.denominator * Nat.pow 10 p.toNat⟩
  else ⟨r.numerator * Nat.pow 10 (-p).toNat, r.denominator⟩

/-- The decimal `digits * 10 ^ exponent`. -/
structure Scientific where
  digits : Nat
  exponent : Int

/-- How many times `r` has to be multiplied by ten to reach one, for at most `fuel` times. -/
def leadingZeros (fuel : Nat) (r : Ratio) : Nat :=
  match fuel with
  | 0 => 0
  | fuel + 1 =>
    if r.denominator ≤ r.numerator then 0
    else leadingZeros fuel ⟨r.numerator * 10, r.denominator⟩ + 1

/-- The `k` with `10 ^ (k - 1) ≤ r < 10 ^ k`.  No number of the format is below `10 ^ (-324)`. -/
def decimalPoint (r : Ratio) : Int :=
  if r.denominator ≤ r.numerator then
    (Nat.toDigits 10 (r.numerator / r.denominator)).length
  else
    1 - (leadingZeros 330 r : Int)

/-- The interval that rounds to a number, in units of `10 ^ unit`: the number itself and the two
ends are `value`, `low` and `high` over the one `denominator`. -/
structure Interval where
  value : Nat
  low : Nat
  high : Nat
  denominator : Nat
  closed : Bool

/-- The interval of `b` on the grid of the multiples of `10 ^ unit`.  In quarters of its last bit
the number is `4 * significand`, the upper end is two above and the lower end two, at an edge one,
below. -/
def Binary.interval (b : Binary) (unit : Int) : Interval :=
  let value := (Ratio.scaled (4 * b.significand) (b.exponent - 2)).divPowTen unit
  let low := (Ratio.scaled (4 * b.significand - if b.atEdge then 1 else 2)
    (b.exponent - 2)).divPowTen unit
  let high := (Ratio.scaled (4 * b.significand + 2) (b.exponent - 2)).divPowTen unit
  ⟨value.numerator, low.numerator, high.numerator, value.denominator, b.even⟩

/-- Whether the grid point `d` lies in the interval. -/
def Interval.contains (i : Interval) (d : Nat) : Bool :=
  let p := d * i.denominator
  if i.closed then i.low ≤ p && p ≤ i.high else i.low < p && p < i.high

/-- Of the two grid points around the value, the one in the interval that is nearer. -/
def Interval.best? (i : Interval) : Option Nat :=
  let d := i.value / i.denominator
  match i.contains d, i.contains (d + 1) with
  | false, false => none
  | true, false => some d
  | false, true => some (d + 1)
  | true, true =>
    -- both neighbours round to the number, so their distances decide
    let below := i.value - d * i.denominator
    let above := (d + 1) * i.denominator - i.value
    if below < above then some d
    else if above < below then some (d + 1)
    else some (if d % 2 = 0 then d else d + 1)

/-- The first of the next `grids` grids, from `digits` digits on, with a point in the interval.
Seventeen digits always suffice, so the end of the search is never reached. -/
def Binary.search (b : Binary) (point : Int) (digits : Nat) : Nat → Scientific
  | 0 => ⟨b.significand, 0⟩
  | grids + 1 =>
    let unit := point - digits
    match (b.interval unit).best? with
    | some d => ⟨d, unit⟩
    | none => b.search point (digits + 1) grids

/-- The shortest decimal that rounds to `b`. -/
def Binary.shortest (b : Binary) : Scientific :=
  b.search (decimalPoint (Ratio.scaled b.significand b.exponent)) 1 17

end FormulaMarkup.Decimal
