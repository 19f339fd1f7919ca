import Abacus.Text.Blank

/-
  Patterns.

  A pattern is a regular expression that matches whole
  characters. The kinds of characters and the pairs of upper
  and lower case are known for ASCII only. So what needs
  them is allowed only where the flag `u` is off, and what
  could match a part of a character only where it is on.

  The flag `x` makes blanks and comments between the parts
  of a pattern insignificant.

  Key definitions include:
    * `Abacus.Pattern.Flags`
    * `Abacus.Pattern.Atom`
    * `Abacus.Pattern.Atom.allowed`
    * `Abacus.Pattern.skip`
-/

------------------------------------------------------------
-- Flags
------------------------------------------------------------

namespace Abacus

namespace Pattern

/- The flags that decide whether a pattern is valid. -/
structure Flags where
  ignoreCase : Bool := false
  unicode : Bool := true
  verbose : Bool := false
deriving DecidableEq

/- Set the flag of a letter. -/
def Flags.set?
    (f : Flags)
    (on : Bool) :
    Char → Option Flags
| 'i' => some { f with ignoreCase := on }
| 'u' => some { f with unicode := on }
| 'x' => some { f with verbose := on }
| 'm' => some f
| 's' => some f
| 'U' => some f
| 'R' => some f
| _ => none

end Pattern

end Abacus

------------------------------------------------------------
-- Atoms
------------------------------------------------------------

namespace Abacus

namespace Pattern

/- The parts of a pattern that have no parts. -/
inductive Atom where
/- A character, which may be written as a byte. -/
| literal (c : Char) (byte : Bool)
/- Any character. -/
| anything
/- The start or the end of a text or of a line. -/
| place
/- An edge of a word, or the absence of one. -/
| wordEdge
/- Digits, blanks or word characters, or all others. -/
| kind (negated : Bool)
deriving DecidableEq

namespace Atom

/- Whether an atom may stand in a pattern. -/
def allowed
    (f : Flags) :
    Atom → Bool
| .literal c byte =>
    if f.unicode then
      !f.ignoreCase
    else
      !byte || c.toNat < 0x80
| .anything => f.unicode
| .place => true
| .wordEdge => !f.unicode
| .kind negated => !f.unicode && !negated

/- Whether an atom may stand in a set of characters. -/
def allowedInSet
    (f : Flags) :
    Atom → Bool
| .literal c _ =>
    if f.unicode then
      !f.ignoreCase
    else
      c.toNat < 0x80
| .kind negated => !f.unicode && !negated
| .anything => false
| .place => false
| .wordEdge => false

end Atom

end Pattern

end Abacus

------------------------------------------------------------
-- Blanks and Comments
------------------------------------------------------------

namespace Abacus

namespace Pattern

/- Drop blanks and comments. -/
def dropComments
    (comment : Bool) :
    List Char → List Char
| [] => []
| c :: cs =>
    if comment then
      dropComments (c != '\n') cs
    else if Text.isBlank c then
      dropComments false cs
    else if c == '#' then
      dropComments true cs
    else
      c :: cs

/- Drop what the flags make insignificant. -/
def skip
    (f : Flags)
    (cs : List Char) : List Char :=
  if f.verbose then
    dropComments false cs
  else
    cs

/-
  The leading characters of a kind, and the rest. What is
  insignificant is dropped before and between them, and in
  front of the rest.
-/
def spanSkipping
    (f : Flags)
    (p : Char → Bool)
    (comment : Bool) :
    List Char → List Char × List Char
| [] => ([], [])
| c :: cs =>
    if comment then
      spanSkipping f p (c != '\n') cs
    else if f.verbose && Text.isBlank c then
      spanSkipping f p false cs
    else if f.verbose && c == '#' then
      spanSkipping f p true cs
    else if p c then
      let (taken, rest) := spanSkipping f p false cs
      (c :: taken, rest)
    else
      ([], c :: cs)

/-
  The next character that is no blank. A comment is not
  skipped here, only the sign that starts it.
-/
def peek?
    (f : Flags)
    (cs : List Char) : Option Char :=
  if f.verbose then
    match cs.dropWhile Text.isBlank with
    | '#' :: rest => (rest.dropWhile Text.isBlank).head?
    | rest => rest.head?
  else
    cs.head?

end Pattern

end Abacus

------------------------------------------------------------
-- Depth
------------------------------------------------------------

namespace Abacus

namespace Pattern

/- The greatest of some depths. -/
def deepest
    (depths : List Nat) : Nat :=
  depths.foldl max 0

/- The depth of parts in a row: several add a level. -/
def depthOfRow :
    List Nat → Nat
| [] => 0
| [depth] => depth
| depths => deepest depths + 1

/- Patterns may not be nested deeper. -/
def depthLimit : Nat :=
  250

end Pattern

end Abacus
