import Abacus.Pattern.Basic

/-
  Escapes in patterns.

  A backslash gives signs their plain meaning, and letters a
  special one: characters by their code, control characters,
  kinds of characters, places, and edges of words.

  Key definitions include:
    * `Abacus.Pattern.readCode`
    * `Abacus.Pattern.readEdge`
    * `Abacus.Pattern.readEscape`
-/

------------------------------------------------------------
-- Codes
------------------------------------------------------------

namespace Abacus

namespace Pattern

/- The value of a hexadecimal digit. -/
def hexDigit?
    (c : Char) : Option Nat :=
  if c.isDigit then
    some (c.toNat - '0'.toNat)
  else if 'a' ≤ c.toLower && c.toLower ≤ 'f' then
    some (c.toLower.toNat - 'a'.toNat + 10)
  else
    none

/- The character of a code, if there is one. -/
def charOfCode?
    (n : Nat) : Option Char :=
  if n.isValidChar then
    some (Char.ofNat n)
  else
    none

/- Read a number of hexadecimal digits. -/
def readHex
    (f : Flags) :
    Nat → Nat → List Char → Option (Nat × List Char)
| 0, value, cs => some (value, cs)
| _ + 1, _, [] => none
| n + 1, value, c :: cs => do
    let digit ← hexDigit? c
    readHex f n (16 * value + digit) (skip f cs)

/- The value of hexadecimal digits, at least one. -/
def hexValue?
    (digits : List Char) : Option Nat :=
  if digits.isEmpty then
    none
  else
    digits.foldlM
      (fun value c => do
        let digit ← hexDigit? c
        return 16 * value + digit)
      0

/-
  Read the character of a code, which has a fixed number of
  digits or stands in braces. Two digits are a byte.
-/
def readCode
    (f : Flags)
    (digits : Nat)
    (cs : List Char) : Option (Atom × List Char) :=
  match skip f cs with
  | '\x7b' :: cs =>
      match spanSkipping f (· != '\x7d') false cs with
      | (code, _ :: rest) => do
          let c ← (hexValue? code).bind charOfCode?
          return (.literal c false, skip f rest)
      | (_, []) => none
  | cs => do
      let (code, rest) ← readHex f digits 0 cs
      let c ← charOfCode? code
      return (.literal c (digits == 2), rest)

end Pattern

end Abacus

------------------------------------------------------------
-- Edges of Words
------------------------------------------------------------

namespace Abacus

namespace Pattern

/- The names of the special edges of words. -/
def edgeNames : List String :=
  ["start", "end", "start-half", "end-half"]

/-
  Read what may follow the sign of a word edge: the name of
  a special edge in braces. Other braces are left.
-/
def readEdge
    (f : Flags) :
    List Char → Option (Atom × List Char)
| '\x7b' :: cs =>
    match spanSkipping f
      (fun c => c.isAlpha || c == '-') false cs with
    | ([], []) => none
    | ([], _) => some (.wordEdge, '\x7b' :: cs)
    | (name, '\x7d' :: rest) =>
        if edgeNames.contains (String.ofList name) then
          some (.wordEdge, rest)
        else
          none
    | _ => none
| cs => some (.wordEdge, cs)

end Pattern

end Abacus

------------------------------------------------------------
-- Escapes
------------------------------------------------------------

namespace Abacus

namespace Pattern

/- Read an escape, behind its backslash. -/
def readEscape
    (f : Flags) :
    List Char → Option (Atom × List Char)
| [] => none
| c :: cs =>
    match c with
    | 'x' => readCode f 2 cs
    | 'u' => readCode f 4 cs
    | 'U' => readCode f 8 cs
    | 'd' | 's' | 'w' => some (.kind false, cs)
    | 'D' | 'S' | 'W' => some (.kind true, cs)
    | 'a' => some (.literal '\x07' false, cs)
    | 'f' => some (.literal '\x0c' false, cs)
    | 't' => some (.literal '\t' false, cs)
    | 'n' => some (.literal '\n' false, cs)
    | 'r' => some (.literal '\r' false, cs)
    | 'v' => some (.literal '\x0b' false, cs)
    | 'A' | 'z' => some (.place, cs)
    | 'b' => readEdge f cs
    | 'B' | '<' | '>' => some (.wordEdge, cs)
    | c =>
        if c.isAlphanum || 0x80 ≤ c.toNat then
          none
        else
          some (.literal c false, cs)

end Pattern

end Abacus
