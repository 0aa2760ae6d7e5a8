import FormulaMarkup.Decimal.Text

/-!
# FormulaMarkup — finite numbers

A number of the format binary64 is finite unless its exponent is all ones.  The sign is a field of
its own, so that a number and its negative are finite or not together.

A number is unpacked into its sign, mantissa and exponent and packed again whenever something is
done to it.  `Packable` says which unpacked numbers keep what makes them finite on the way back.

* **`packable_unpack`**, **`Packable.unpackExponent`** — unpacking and packing.
* **`isFinite_iff`** — finite numbers by their fields.
* **`isFinite_neg`** — the sign does not matter.
-/

namespace FormulaMarkup.Decimal

open Float.Model (Format UnpackedFloat)
open Float.Model.UnpackedFloat (unpackExponent unpackExponent_packComponents)

/-- The exponent of a number as it is stored, with its bias. -/
def storedExponent (exponent : Int) : Nat :=
  (exponent + Format.binary64.exponentBias + Format.binary64.mantissaBitsWithoutImplicit).toNat

/-- An unpacked number that is packed without overflow, and whether it is finite.  What `unpack`
gives is packable (`packable_unpack`), and so is its negative; that is all that is needed here. -/
inductive Packable : UnpackedFloat → Bool → Prop where
  | infinity (sign : UnpackedFloat.Sign) : Packable (.infinity sign) false
  | notANumber : Packable .notANumber false
  | zero (sign : UnpackedFloat.Sign) : Packable (.zero sign) true
  | finite (sign : UnpackedFloat.Sign) {mantissa : Nat} {exponent : Int} (hpos : 0 < mantissa)
      (h : storedExponent exponent < 2047) : Packable (.finite sign mantissa exponent hpos) true

/-- Whether such a number is finite is what `Packable` says. -/
theorem Packable.isFinite {u : UnpackedFloat} {b : Bool} (h : Packable u b) : u.isFinite = b := by
  cases h <;> rfl

/-- The sign does not matter for packing. -/
theorem Packable.neg {u : UnpackedFloat} {b : Bool} (h : Packable u b) : Packable u.neg b := by
  cases h with
  | infinity sign => exact .infinity _
  | notANumber => exact .notANumber
  | zero sign => exact .zero _
  | finite sign hpos hexponent => exact .finite _ hpos hexponent

/-- The exponent of the numbers that are not finite. -/
abbrev allOnes : BitVec Format.binary64.exponentBits := -1#_

theorem toNat_allOnes : allOnes.toNat = 2047 := by decide

/-- What `unpack` gives is `Packable`, and is finite unless the exponent is all ones.  One case for
each kind of stored number; the exponents that occur are not too large to be stored again. -/
theorem packable_unpack (b : BitVec Format.binary64.numBits) :
    Packable (UnpackedFloat.unpack Format.binary64 b) (unpackExponent b != allOnes) := by
  have hbound : (unpackExponent b).toNat < 2048 := (unpackExponent b).isLt
  unfold UnpackedFloat.unpack
  by_cases hones : unpackExponent b = allOnes
  · rw [if_pos hones, hones, bne_self_eq_false]
    by_cases hmantissa : UnpackedFloat.unpackMantissa b = 0#_
    · rw [if_pos hmantissa]
      exact .infinity _
    · rw [if_neg hmantissa]
      exact .notANumber
  · have hlt : (unpackExponent b).toNat < 2047 := by
      have hne : (unpackExponent b).toNat ≠ 2047 := by
        rw [← toNat_allOnes, Ne, BitVec.toNat_inj]
        exact hones
      omega
    rw [if_neg hones, bne_iff_ne.mpr hones]
    -- without an exponent the number is zero or subnormal, and its mantissa tells which
    by_cases hzero : unpackExponent b = 0#_
    · rw [if_pos hzero]
      by_cases hmantissa : UnpackedFloat.unpackMantissa b = 0#_
      · rw [dif_pos hmantissa]
        exact .zero _
      · rw [dif_neg hmantissa]
        refine .finite _ _ ?_
        rw [hzero]
        decide
    · rw [if_neg hzero]
      refine .finite _ _ ?_
      -- the bias that was taken off is added again
      show (((unpackExponent b).toNat : Int) - (1023 + 52) + 1023 + 52).toNat < 2047
      omega

/-- The exponent that was packed is found again. -/
theorem exponent_of_components (sign : UnpackedFloat.Sign)
    (exponent : BitVec Format.binary64.exponentBits)
    (mantissa : BitVec Format.binary64.mantissaBitsWithoutImplicit) :
    (unpackExponent (UnpackedFloat.packComponents Format.binary64 sign exponent mantissa)
      != allOnes) = (exponent != allOnes) := by
  rw [unpackExponent_packComponents]

/-- Packing loses nothing of what makes a number finite: the exponent that is stored is all ones for
what is not finite, and for nothing else. -/
theorem Packable.unpackExponent {u : UnpackedFloat} {b : Bool} (h : Packable u b) :
    (UnpackedFloat.unpackExponent (UnpackedFloat.pack Format.binary64 u) != allOnes) = b := by
  cases h with
  | infinity sign => exact exponent_of_components sign allOnes 0
  | notANumber => exact exponent_of_components .positive allOnes _
  | zero sign => exact exponent_of_components sign 0 0
  | @finite sign mantissa exponent hpos hexponent =>
    have hsize : 2 ^ Format.binary64.exponentBits = 2048 := by decide
    have hpack : UnpackedFloat.pack Format.binary64 (.finite sign mantissa exponent hpos) =
        if 2 ^ Format.binary64.exponentBits ≤ storedExponent exponent + 1 then
          UnpackedFloat.packedInfinity Format.binary64 sign
        else if mantissa.log2 + 1 = Format.binary64.mantissaBits then
          UnpackedFloat.packComponents Format.binary64 sign
            (BitVec.ofNat _ (storedExponent exponent)) (BitVec.ofNat _ mantissa)
        else
          UnpackedFloat.packComponents Format.binary64 sign 0 (BitVec.ofNat _ mantissa) := rfl
    rw [hpack, hsize, if_neg (by omega)]
    -- a normal number keeps its exponent, a subnormal one has none
    split
    · rw [exponent_of_components, bne_iff_ne, Ne, ← BitVec.toNat_inj, toNat_allOnes,
        BitVec.toNat_ofNat, hsize]
      omega
    · exact exponent_of_components sign 0 _

/-- **A number and its negative are finite together.** Negation unpacks the number, turns the sign
and packs it again. -/
theorem isFinite_neg (x : Float) : (-x).isFinite = x.isFinite := by
  have hx := packable_unpack x.toBits.toBitVec
  have hneg : (-x).isFinite = _ := (packable_unpack (-x).toBits.toBitVec).isFinite
  rw [hneg, show x.isFinite = _ from hx.isFinite]
  exact hx.neg.unpackExponent

/-- The bits of the exponent of a number. -/
def storedBits (x : Float) : BitVec Format.binary64.exponentBits :=
  unpackExponent x.toBits.toBitVec

/-- **A number is finite unless its exponent is all ones.** The fields in the statement are those by
which numbers are printed, so that what is printed as a number is known to be one. -/
theorem isFinite_iff (x : Float) : x.isFinite = true ↔ (Fields.of x).exponentBits ≠ 2047 := by
  have hfield : (storedBits x).toNat = (Fields.of x).exponentBits := by
    simp [storedBits, unpackExponent, Fields.of, Nat.shiftRight_eq_div_pow]
  have hfinite : x.isFinite = _ := (packable_unpack x.toBits.toBitVec).isFinite
  rw [hfinite, bne_iff_ne, Ne, ← BitVec.toNat_inj, toNat_allOnes, ← hfield]
  rfl

end FormulaMarkup.Decimal
