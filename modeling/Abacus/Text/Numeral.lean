/-
  Decimal numerals.

  Numbers are written in decimal, optionally filled up with
  leading zeros. A numeral that is read may start with one
  plus sign and is below `2 ^ 64`; it is read from the left,
  and the first character that cannot be taken decides the
  error.

  Key definitions include:
    * `Abacus.Text.padded`
    * `Abacus.Text.NumeralError`
    * `Abacus.Text.readNumeral`
-/

------------------------------------------------------------
-- Writing Numerals
------------------------------------------------------------

namespace Abacus

namespace Text

/- The numeral of `n`, filled with zeros to `width` digits. -/
def padded
    (width n : Nat) : String :=
  let digits := Nat.toDigits 10 n
  String.ofList
    (List.replicate (width - digits.length) '0' ++ digits)

end Text

end Abacus

------------------------------------------------------------
-- Reading Numerals
------------------------------------------------------------

namespace Abacus

namespace Text

/- Why a text is not a numeral. -/
inductive NumeralError where
| empty
| invalidDigit
| tooLarge
deriving DecidableEq

/- The wording of a numeral error. -/
def NumeralError.message :
    NumeralError → String
| .empty => "cannot parse integer from empty string"
| .invalidDigit => "invalid digit found in string"
| .tooLarge => "number too large to fit in target type"

/- Numerals are below this bound. -/
def numeralBound : Nat :=
  Nat.pow 2 64

/- Read digits behind those that make up `value`. -/
def readDigits
    (value : Nat) :
    List Char → Except NumeralError Nat
| [] => .ok value
| c :: cs =>
    if c.isDigit then
      let next := 10 * value + (c.toNat - '0'.toNat)
      if next < numeralBound then
        readDigits next cs
      else
        .error .tooLarge
    else
      .error .invalidDigit

/- Read a numeral, with one plus sign at most. -/
def readNumeral :
    List Char → Except NumeralError Nat
| [] => .error .empty
| '+' :: c :: cs => readDigits 0 (c :: cs)
| cs => readDigits 0 cs

end Text

end Abacus
