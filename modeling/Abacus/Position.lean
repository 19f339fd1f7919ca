/-
  Source positions.

  Key definitions include:
    * `Abacus.Position`
    * `Abacus.Position.text`
-/

------------------------------------------------------------
-- Positions
------------------------------------------------------------

namespace Abacus

/- A line and a column of the source of a chunk. -/
structure Position where
  line : Nat := 0
  col : Nat := 0
deriving DecidableEq

namespace Position

/- The position as `line:col`. -/
def text
    (p : Position) : String :=
  Nat.repr p.line ++ ":" ++ Nat.repr p.col

end Position

end Abacus
