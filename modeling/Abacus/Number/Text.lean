import Abacus.Number.Basic
import Abacus.Number.Shortest

/-
  The text of a number.

  A number is written with the fewest digits that identify
  it, always positionally: no exponent, no point after a
  whole number, a zero in front of a leading point. Zero has
  a sign, infinity is `inf`, and a NaN has no sign.

  Key definitions include:
    * `Abacus.Number.Decimal.text`
    * `Abacus.Number.text`
-/

------------------------------------------------------------
-- Positional Notation
------------------------------------------------------------

namespace Abacus

namespace Number

namespace Decimal

/- Zeros that fill places of positional notation. -/
def zeros
    (count : Nat) : List Char :=
  List.replicate count '0'

/-
  The characters of a decimal. `places` digits stand behind
  the point if the exponent is negative.
-/
def characters
    (d : Decimal) : List Char :=
  let digits := Nat.toDigits 10 d.digits
  let places := (-d.exponent).toNat
  if places = 0 then
    digits ++ zeros d.exponent.toNat
  else if places < digits.length then
    digits.take (digits.length - places) ++
      '.' :: digits.drop (digits.length - places)
  else
    '0' :: '.' ::
      (zeros (places - digits.length) ++ digits)

/- The decimal in positional notation. -/
def text
    (d : Decimal) : String :=
  String.ofList d.characters

end Decimal

end Number

end Abacus

------------------------------------------------------------
-- Number Text
------------------------------------------------------------

namespace Abacus

namespace Number

/- The text of a number of the given magnitude bits. -/
def unsignedText
    (bits : Nat) : String :=
  if bits = 0 then
    "0"
  else if bits = 2047 * Nat.pow 2 52 then
    "inf"
  else
    (Magnitude.ofBits bits).shortest.text

/- The text of a number. -/
def text
    (x : Number) : String :=
  let bits := x.toBits.toNat
  let magnitude := bits % Nat.pow 2 63
  if x.isNaN then
    "NaN"
  else if bits < Nat.pow 2 63 then
    unsignedText magnitude
  else
    "-" ++ unsignedText magnitude

end Number

end Abacus
