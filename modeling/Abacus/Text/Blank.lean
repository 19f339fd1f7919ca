/-
  Blank characters and trimming.

  A blank is a character with the Unicode property
  `White_Space`. There are twenty-five of them, in ten
  ranges.

  Key definitions include:
    * `Abacus.Text.blankRanges`
    * `Abacus.Text.isBlank`
    * `Abacus.Text.trim`
-/

------------------------------------------------------------
-- Blanks
------------------------------------------------------------

namespace Abacus

namespace Text

/- The ranges of blank characters, first and last of each. -/
def blankRanges : List (Nat × Nat) :=
  [ (0x09, 0x0D), (0x20, 0x20), (0x85, 0x85),
    (0xA0, 0xA0), (0x1680, 0x1680), (0x2000, 0x200A),
    (0x2028, 0x2029), (0x202F, 0x202F), (0x205F, 0x205F),
    (0x3000, 0x3000) ]

/- Whether a character is blank. -/
def isBlank
    (c : Char) : Bool :=
  blankRanges.any fun (first, last) =>
    first ≤ c.toNat && c.toNat ≤ last

/- Drop the blanks at the end. -/
def trimEnd
    (cs : List Char) : List Char :=
  (cs.reverse.dropWhile isBlank).reverse

/- Drop the blanks at both ends. -/
def trim
    (cs : List Char) : List Char :=
  trimEnd (cs.dropWhile isBlank)

end Text

end Abacus
