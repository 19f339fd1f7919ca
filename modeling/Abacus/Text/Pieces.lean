/-
  Cutting texts at a separator.

  The pieces of a text are what stands between the
  separators, so there is one piece more than there are
  separators, and pieces may be empty.

  Key definitions include:
    * `Abacus.Text.pieces`
-/

------------------------------------------------------------
-- Pieces
------------------------------------------------------------

namespace Abacus

namespace Text

/- The first piece of a text, and the pieces behind it. -/
def cut
    (separator : Char) :
    List Char → List Char × List (List Char)
| [] => ([], [])
| c :: cs =>
    let (piece, rest) := cut separator cs
    if c = separator then
      ([], piece :: rest)
    else
      (c :: piece, rest)

/- The pieces of a text. -/
def pieces
    (separator : Char)
    (cs : List Char) : List (List Char) :=
  (cut separator cs).1 :: (cut separator cs).2

end Text

end Abacus
