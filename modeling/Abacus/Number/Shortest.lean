/-
  The fewest decimal digits that identify a binary64 number.

  A finite non-zero number is `significand * 2 ^ exponent`.
  The reals that round to it form an interval around it. A
  decimal grid holds the multiples of one power of ten, and
  the shortest decimal is a point of the coarsest grid that
  meets the interval. Of two such points the nearer one is
  taken, and the larger one if both are equally near.

  If a grid meets the interval, then one of the two grid
  points next to the number lies in it, so only those two
  are tested. All tests are exact, in natural numbers. The
  search ends because the number itself is a point of a fine
  enough grid.

  Key definitions include:
    * `Abacus.Number.Magnitude`
    * `Abacus.Number.Magnitude.ofBits`
    * `Abacus.Number.Magnitude.Holds`
    * `Abacus.Number.Decimal`
    * `Abacus.Number.Magnitude.shortest`
-/

------------------------------------------------------------
-- Binary Magnitudes
------------------------------------------------------------

namespace Abacus

namespace Number

/-
  The size of a finite non-zero number. `narrow` says that
  the gap to the next smaller number is half of the gap to
  the next larger one.
-/
structure Magnitude where
  significand : Nat
  exponent : Int
  narrow : Bool
deriving DecidableEq

namespace Magnitude

/- The magnitude with the given exponent and fraction bits. -/
def ofBits
    (bits : Nat) : Magnitude :=
  let fraction : Nat := bits % Nat.pow 2 52
  let biased : Nat := bits / Nat.pow 2 52
  if biased = 0 then
    { significand := fraction
      exponent := -1074
      narrow := false }
  else
    { significand := Nat.pow 2 52 + fraction
      exponent := (biased : Int) - 1075
      narrow := fraction = 0 ∧ 1 < biased }

end Magnitude

end Number

end Abacus

------------------------------------------------------------
-- Decimal Grids
------------------------------------------------------------

namespace Abacus

namespace Number

namespace Magnitude

/-
  A quarter of the unit of `significand`, measured on the
  grid of multiples of `10 ^ grid`, is the fraction
  `scale / unit`.
-/
def scale
    (x : Magnitude)
    (grid : Int) : Nat :=
  Nat.pow 2 (x.exponent - 2).toNat *
    Nat.pow 10 (-grid).toNat

def unit
    (x : Magnitude)
    (grid : Int) : Nat :=
  Nat.pow 2 (2 - x.exponent).toNat *
    Nat.pow 10 grid.toNat

/- The number in quarters of its unit. -/
def quarters
    (x : Magnitude) : Nat :=
  4 * x.significand

/- The lower end of the interval, in quarters. -/
def lower
    (x : Magnitude) : Nat :=
  x.quarters - if x.narrow then 1 else 2

/- The upper end of the interval, in quarters. -/
def upper
    (x : Magnitude) : Nat :=
  x.quarters + 2

/-
  The grid point `point * 10 ^ grid` rounds to the number.
  The ends of the interval do if the significand is even.
-/
def Holds
    (x : Magnitude)
    (grid : Int)
    (point : Nat) : Prop :=
  let low := x.lower * x.scale grid
  let high := x.upper * x.scale grid
  let here := point * x.unit grid
  if x.significand % 2 = 0 then
    low ≤ here ∧ here ≤ high
  else
    low < here ∧ here < high

instance
    (x : Magnitude)
    (grid : Int)
    (point : Nat) :
    Decidable (Holds x grid point) := by
  unfold Holds
  infer_instance

/- The last grid point that is not above the number. -/
def below
    (x : Magnitude)
    (grid : Int) : Nat :=
  x.quarters * x.scale grid / x.unit grid

/-
  The grid point above the number is at least as near as the
  one below it.
-/
def UpIsNear
    (x : Magnitude)
    (grid : Int) : Prop :=
  (2 * x.below grid + 1) * x.unit grid ≤
    2 * x.quarters * x.scale grid

instance
    (x : Magnitude)
    (grid : Int) :
    Decidable (UpIsNear x grid) := by
  unfold UpIsNear
  infer_instance

/- The grid point to write for the number, if there is one. -/
def pointOn?
    (x : Magnitude)
    (grid : Int) : Option Nat :=
  let down := x.below grid
  let up := down + 1
  if x.Holds grid up ∧
      (x.UpIsNear grid ∨ ¬ x.Holds grid down) then
    some up
  else if x.Holds grid down then
    some down
  else
    none

end Magnitude

end Number

end Abacus

------------------------------------------------------------
-- Shortest Decimals
------------------------------------------------------------

namespace Abacus

namespace Number

/- The decimal `digits * 10 ^ exponent`. -/
structure Decimal where
  digits : Nat
  exponent : Int
deriving DecidableEq

namespace Magnitude

/-
  Search the grid `10 ^ grid` and then up to `finer` finer
  grids. The finest one is taken to hold the number.
-/
def search
    (x : Magnitude)
    (grid : Int) :
    Nat → Decimal
| 0 => ⟨x.below grid, grid⟩
| finer + 1 =>
    match x.pointOn? grid with
    | some point => ⟨point, grid⟩
    | none => x.search (grid - 1) finer

/-
  A power of ten above the number. A number of `n` binary
  digits is below `10 ^ (n * 0.30103 + 1)`.
-/
def coarsest
    (x : Magnitude) : Int :=
  let binaryDigits := x.significand.log2 + 1 + x.exponent
  Int.fdiv (binaryDigits * 30103) 100000 + 1

/- A grid of which the number itself is a point. -/
def finest
    (x : Magnitude) : Int :=
  min x.exponent 0

/- The decimal with the fewest digits that reads back. -/
def shortest
    (x : Magnitude) : Decimal :=
  x.search x.coarsest (x.coarsest - x.finest).toNat

end Magnitude

end Number

end Abacus
