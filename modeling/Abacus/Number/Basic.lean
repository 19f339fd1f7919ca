/-
  Numbers.

  A number is a binary64 number, kept by its bits. Bits that
  are only passed on stay as they are, also those of a NaN.
  Arithmetic goes through the float of the bits. Among
  floats there is one NaN only, so a result that is a NaN is
  always this one. A change of sign changes the sign bit, of
  a NaN too.

  Key definitions include:
    * `Abacus.Number`
    * `Abacus.Number.toFloat`
    * `Abacus.Number.ofFloat`
    * `Abacus.Number.isNaN`
    * `Abacus.Number.equals`
-/

------------------------------------------------------------
-- Numbers
------------------------------------------------------------

namespace Abacus

/- The values of the machine are binary64 numbers. -/
@[ext] structure Number where
  ofBits ::
  toBits : UInt64
deriving DecidableEq

namespace Number

/- The float of a number. -/
def toFloat
    (x : Number) : Float :=
  Float.ofBits x.toBits

/- The number of a float. -/
def ofFloat
    (x : Float) : Number :=
  .ofBits x.toBits

instance : Coe Float Number where
  coe := ofFloat

instance
    {n : Nat} :
    OfNat Number n where
  ofNat := Float.ofNat n

instance : OfScientific Number where
  ofScientific mantissa negative exponent :=
    Float.ofScientific mantissa negative exponent

/- Whether a number is a NaN, of either sign. -/
def isNaN
    (x : Number) : Bool :=
  2047 * Nat.pow 2 52 < x.toBits.toNat % Nat.pow 2 63

/-
  Whether two numbers are equal as floats. Zeros of either
  sign are, and a NaN is equal to nothing.
-/
def equals
    (x y : Number) : Bool :=
  x.toFloat == y.toFloat

end Number

end Abacus

------------------------------------------------------------
-- Arithmetic
------------------------------------------------------------

namespace Abacus

namespace Number

instance : Add Number where
  add x y := ↑(x.toFloat + y.toFloat)

instance : Sub Number where
  sub x y := ↑(x.toFloat - y.toFloat)

instance : Mul Number where
  mul x y := ↑(x.toFloat * y.toFloat)

instance : Div Number where
  div x y := ↑(x.toFloat / y.toFloat)

/- The sign bit is the first one. -/
def signBit : UInt64 :=
  0x8000000000000000

instance : Neg Number where
  neg x := .ofBits (x.toBits ^^^ signBit)

end Number

end Abacus
