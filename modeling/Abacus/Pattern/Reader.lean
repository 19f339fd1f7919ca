import Abacus.Pattern.CharacterSet
import Abacus.Text.Digit

/-
  Reading patterns.

  A pattern is made of alternatives, and those of atoms,
  sets, groups and flags in a row, of which all but flags
  may be repeated. Flags hold to the end of the group that
  they are in. Groups may have names, each used once.

  A pattern is valid if it can be read and is not nested too
  deeply.

  Key definitions include:
    * `Abacus.Pattern.Opening`
    * `Abacus.Pattern.Scope`
    * `Abacus.Pattern.Reading`
    * `Abacus.Pattern.isValid`
-/

------------------------------------------------------------
-- Openings of Groups
------------------------------------------------------------

namespace Abacus

namespace Pattern

/- What an opening parenthesis starts. -/
inductive Opening where
/- Flags for the rest of the group around it. -/
| flags (f : Flags)
/- A group with its flags, and its name if it has one. -/
| group (f : Flags) (name : Option (List Char))
deriving DecidableEq

/-
  Read flags, behind those already seen. A sign turns the
  flags behind it off.
-/
def readFlags
    (f : Flags)
    (seen : List Char) :
    List Char → Option (Opening × List Char)
| [] => none
| c :: cs =>
    if c == ':' then
      if seen.head? == some '-' then
        none
      else
        some (.group f none, cs)
    else if c == ')' then
      if seen.isEmpty || seen.head? == some '-' then
        none
      else
        some (.flags f, cs)
    else if seen.contains c then
      none
    else if c == '-' then
      readFlags f (c :: seen) cs
    else
      match f.set? (!seen.contains '-') c with
      | none => none
      | some f => readFlags f (c :: seen) cs

/- Whether a character may start the name of a group. -/
def startsGroupName
    (c : Char) : Bool :=
  c == '_' || Text.isLetter c

/- Whether a character may be in the name of a group. -/
def continuesGroupName
    (c : Char) : Bool :=
  c == '_' || c == '.' || c == '[' || c == ']' ||
    Text.isAlphanumeric c

/- Whether a text is the name of a group. -/
def isGroupName :
    List Char → Bool
| [] => false
| c :: cs => startsGroupName c && cs.all continuesGroupName

/- Read the name of a group, and the sign that ends it. -/
def readGroupName
    (f : Flags)
    (cs : List Char) : Option (Opening × List Char) :=
  let name := cs.takeWhile (· != '>')
  match cs.dropWhile (· != '>') with
  | _ :: rest =>
      if isGroupName name then
        some (.group f (some name), rest)
      else
        none
  | [] => none

/- Read what follows an opening parenthesis. -/
def readOpening
    (f : Flags)
    (cs : List Char) : Option (Opening × List Char) :=
  match skip f cs with
  | '?' :: 'P' :: '<' :: cs => readGroupName f cs
  | '?' :: '<' :: cs => readGroupName f cs
  | '?' :: cs => readFlags f [] cs
  | cs => some (.group f none, cs)

end Pattern

end Abacus

------------------------------------------------------------
-- Repetitions
------------------------------------------------------------

namespace Abacus

namespace Pattern

/- Counts of repetitions are below this bound. -/
def countBound : Nat :=
  Nat.pow 2 32

/- Read a count, with blanks around it. -/
def readCount
    (f : Flags)
    (cs : List Char) : Option (Nat × List Char) :=
  let (digits, rest) :=
    spanSkipping f Char.isDigit false
      (cs.dropWhile Text.isBlank)
  let count :=
    digits.foldl
      (fun n c => 10 * n + (c.toNat - '0'.toNat)) 0
  if digits.isEmpty || countBound ≤ count then
    none
  else
    some (count, rest.dropWhile Text.isBlank)

/- Read the last count of a repetition and the brace. -/
def readLastCount
    (f : Flags)
    (first : Nat)
    (cs : List Char) : Option (List Char) :=
  match skip f cs with
  | '\x7d' :: rest => some rest
  | cs =>
      match readCount f cs with
      | some (last, '\x7d' :: rest) =>
          if first ≤ last then some rest else none
      | _ => none

/- Read how often a part is repeated, behind the brace. -/
def readCounts
    (f : Flags)
    (cs : List Char) : Option (List Char) :=
  match readCount f (skip f cs) with
  | some (_, '\x7d' :: rest) => some rest
  | some (first, ',' :: rest) => readLastCount f first rest
  | _ => none

/- Drop the sign that makes a repetition reluctant. -/
def dropReluctance :
    List Char → List Char
| '?' :: cs => cs
| cs => cs

end Pattern

end Abacus

------------------------------------------------------------
-- Scopes
------------------------------------------------------------

namespace Abacus

namespace Pattern

/- A part of a row: its depth, and if it can be repeated. -/
structure Part where
  depth : Nat
  repeatable : Bool := true
deriving DecidableEq

/-
  What is read of a group or of the whole pattern: the
  depths of the alternatives that are complete, and the
  parts of the current one, the last first.
-/
structure Scope where
  alternatives : List Nat := []
  parts : List Part := []
deriving DecidableEq

namespace Scope

/- The depth of the current alternative. -/
def rowDepth
    (s : Scope) : Nat :=
  depthOfRow (s.parts.map Part.depth)

/- The depth of the scope. -/
def depth
    (s : Scope) : Nat :=
  depthOfRow (s.rowDepth :: s.alternatives)

/- Add a part to the current alternative. -/
def add
    (s : Scope)
    (part : Part) : Scope :=
  { s with parts := part :: s.parts }

/- Start another alternative. -/
def alternate
    (s : Scope) : Scope where
  alternatives := s.rowDepth :: s.alternatives
  parts := []

/- Repeat the last part. -/
def repeat?
    (s : Scope) : Option Scope :=
  match s.parts with
  | part :: parts =>
      if part.repeatable then
        some
          { s with
            parts := { depth := part.depth + 1 } :: parts }
      else
        none
  | [] => none

end Scope

end Pattern

end Abacus

------------------------------------------------------------
-- Patterns
------------------------------------------------------------

namespace Abacus

namespace Pattern

/-
  What is read of a pattern: the flags in force, the scope,
  the scopes around it with the flags there, and the names
  of groups.
-/
structure Reading where
  flags : Flags := {}
  scope : Scope := {}
  around : List (Flags × Scope) := []
  names : List (List Char) := []
deriving DecidableEq

namespace Reading

/- Add a part. -/
def add
    (r : Reading)
    (part : Part) : Reading :=
  { r with scope := r.scope.add part }

/- Add an atom, if it is allowed. -/
def addAtom
    (r : Reading)
    (atom : Atom) : Option Reading :=
  if atom.allowed r.flags then
    some (r.add { depth := 0 })
  else
    none

/- Repeat the last part. -/
def again
    (r : Reading) : Option Reading := do
  let scope ← r.scope.repeat?
  return { r with scope := scope }

/- Start what an opening parenthesis starts. -/
def opened
    (r : Reading) :
    Opening → Option Reading
| .flags f =>
    some
      ({ r with flags := f }.add
        { depth := 0, repeatable := false })
| .group f name =>
    if name.any r.names.contains then
      none
    else
      some
        { flags := f
          scope := {}
          around := (r.flags, r.scope) :: r.around
          names := name.toList ++ r.names }

/- End a group. -/
def closed
    (r : Reading) : Option Reading :=
  match r.around with
  | [] => none
  | (f, scope) :: around =>
      some
        { r with
          flags := f
          scope := scope.add { depth := r.scope.depth + 1 }
          around := around }

/- Read a part of a pattern. -/
def step
    (r : Reading) :
    List Char → Option (Reading × List Char)
| [] => none
| '(' :: cs => do
    let (opening, rest) ← readOpening r.flags cs
    return (← r.opened opening, rest)
| ')' :: cs => do
    return (← r.closed, cs)
| '|' :: cs =>
    some ({ r with scope := r.scope.alternate }, cs)
| '[' :: cs => do
    let (depth, rest) ← readSet r.flags cs
    return (r.add { depth := depth }, rest)
| '?' :: cs => do
    return (← r.again, dropReluctance cs)
| '*' :: cs => do
    return (← r.again, dropReluctance cs)
| '+' :: cs => do
    return (← r.again, dropReluctance cs)
| '\x7b' :: cs => do
    let rest ← readCounts r.flags cs
    return (← r.again, dropReluctance (skip r.flags rest))
| '\\' :: cs => do
    let (atom, rest) ← readEscape r.flags cs
    return (← r.addAtom atom, rest)
| '.' :: cs => do
    return (← r.addAtom .anything, cs)
| '^' :: cs => do
    return (← r.addAtom .place, cs)
| '$' :: cs => do
    return (← r.addAtom .place, cs)
| c :: cs => do
    return (← r.addAtom (.literal c false), cs)

/- Read the rest of a pattern. Each part shortens it. -/
def finish
    (r : Reading)
    (cs : List Char) : Option Reading :=
  match skip r.flags cs with
  | [] => some r
  | c :: rest =>
      match r.step (c :: rest) with
      | none => none
      | some (r, rest) =>
          if _h : rest.length < cs.length then
            finish r rest
          else
            none
termination_by cs.length

end Reading

/- Whether a text is a valid pattern. -/
def isValid
    (text : List Char) : Bool :=
  match Reading.finish {} text with
  | none => false
  | some r =>
      r.around.isEmpty && r.scope.depth ≤ depthLimit

end Pattern

end Abacus
