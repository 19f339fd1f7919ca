/-
  Decimal notation.

  A number is written with an optional sign and then as
  `inf`, `infinity` or `nan`, in any case, or as digits that
  may hold a point and be followed by an exponent.

  Key definitions include:
    * `Abacus.Text.isDecimal`
-/

------------------------------------------------------------
-- Decimals
------------------------------------------------------------

namespace Abacus

namespace Text

/- What follows a sign, if there is one. -/
def dropSign :
    List Char → List Char
| '+' :: cs => cs
| '-' :: cs => cs
| cs => cs

/- Whether a text is made of digits, at least one. -/
def isDigits
    (cs : List Char) : Bool :=
  !cs.isEmpty && cs.all Char.isDigit

/- Whether a text is an exponent, or empty. -/
def isExponent :
    List Char → Bool
| [] => true
| c :: cs => c.toLower == 'e' && isDigits (dropSign cs)

/- Whether a text is digits with a point and an exponent. -/
def isPositional
    (cs : List Char) : Bool :=
  let whole := cs.takeWhile Char.isDigit
  match cs.dropWhile Char.isDigit with
  | '.' :: rest =>
      let fraction := rest.takeWhile Char.isDigit
      isDigits (whole ++ fraction) &&
        isExponent (rest.dropWhile Char.isDigit)
  | rest => isDigits whole && isExponent rest

/- The names of the values that have no digits. -/
def decimalNames : List String :=
  ["inf", "infinity", "nan"]

/- Whether a text is a number in decimal notation. -/
def isDecimal
    (cs : List Char) : Bool :=
  let body := dropSign cs
  decimalNames.contains
      (String.ofList (body.map Char.toLower)) ||
    isPositional body

end Text

end Abacus
