import Abacus.Pattern.Escape

/-
  Sets of characters in patterns.

  A set stands in brackets and holds characters, ranges,
  kinds, named kinds such as `[:alpha:]`, and sets. Double
  signs are operators between what stands before and behind
  them. A hyphen or a closing bracket that comes first
  stands for itself.

  Key definitions include:
    * `Abacus.Pattern.Bracket`
    * `Abacus.Pattern.readRange`
    * `Abacus.Pattern.readSet`
-/

------------------------------------------------------------
-- Brackets
------------------------------------------------------------

namespace Abacus

namespace Pattern

/-
  What is read of a set: the depth of what stands before the
  last operator, and the depths of the items behind it.
-/
structure Bracket where
  left : Option Nat := none
  items : List Nat := []
deriving DecidableEq

namespace Bracket

/- The depth of what is in the brackets. -/
def depth
    (b : Bracket) : Nat :=
  match b.left with
  | none => depthOfRow b.items
  | some left => max left (depthOfRow b.items) + 1

/- Add an item. -/
def add
    (b : Bracket)
    (depth : Nat) : Bracket :=
  { b with items := depth :: b.items }

/- Start the right side of an operator. -/
def operate
    (b : Bracket) : Bracket where
  left := some b.depth
  items := []

end Bracket

end Pattern

end Abacus

------------------------------------------------------------
-- Items
------------------------------------------------------------

namespace Abacus

namespace Pattern

/- The named kinds of characters. -/
def kindNames : List String :=
  [ "alnum", "alpha", "ascii", "blank", "cntrl", "digit",
    "graph", "lower", "print", "punct", "space", "upper",
    "word", "xdigit" ]

/-
  Read a named kind, behind its first bracket. The result
  tells whether it is negated.
-/
def readNamedKind :
    List Char → Option (Bool × List Char)
| ':' :: cs =>
    let negated := cs.head? == some '^'
    let cs := if negated then cs.drop 1 else cs
    let name := String.ofList (cs.takeWhile (· != ':'))
    match cs.dropWhile (· != ':') with
    | ':' :: ']' :: rest =>
        if kindNames.contains name then
          some (negated, rest)
        else
          none
    | _ => none
| _ => none

/- Whether a named kind may stand in a set. -/
def allowsNamedKind
    (f : Flags)
    (negated : Bool) : Bool :=
  if f.unicode then
    !f.ignoreCase
  else
    !negated

/- Read a character of a set, or an escape. -/
def readItem
    (f : Flags) :
    List Char → Option (Atom × List Char)
| [] => none
| '\\' :: cs => readEscape f cs
| c :: cs => some (.literal c false, cs)

/- Whether two items are the ends of a range. -/
def isRange
    (f : Flags)
    (first last : Atom) : Bool :=
  match first, last with
  | .literal a _, .literal b _ =>
      a ≤ b && first.allowedInSet f && last.allowedInSet f
  | _, _ => false

/-
  Read an item or a range. A hyphen before another one or
  before the closing bracket does not make a range.
-/
def readRange
    (f : Flags)
    (cs : List Char) : Option (List Char) := do
  let (first, cs) ← readItem f cs
  let single :=
    if first.allowedInSet f then some (skip f cs) else none
  match skip f cs with
  | '-' :: rest =>
      if peek? f rest == some ']' ||
          peek? f rest == some '-' then
        single
      else
        let (last, rest) ← readItem f (skip f rest)
        if isRange f first last then
          some rest
        else
          none
  | _ => single

end Pattern

end Abacus

------------------------------------------------------------
-- Sets
------------------------------------------------------------

namespace Abacus

namespace Pattern

/- Read the start of a set, behind its bracket. -/
def readBracket
    (f : Flags)
    (cs : List Char) : Option (Bracket × List Char) :=
  let cs := skip f cs
  let negated := cs.head? == some '^'
  let (hyphens, cs) :=
    spanSkipping f (· == '-') false
      (if negated then cs.drop 1 else cs)
  let closing := hyphens.isEmpty && cs.head? == some ']'
  let literals :=
    if closing then [']'] else hyphens
  if negated && !f.unicode then
    none
  else if literals.all fun c =>
      Atom.allowedInSet f (.literal c false) then
    some
      ( { items := literals.map fun _ => 0 },
        if closing then cs.drop 1 else cs )
  else
    none

/- The set that is being read, and those around it. -/
structure SetReading where
  bracket : Bracket
  around : List Bracket := []
deriving DecidableEq

namespace SetReading

/- Change the set that is being read. -/
def edit
    (r : SetReading)
    (change : Bracket → Bracket) : SetReading :=
  { r with bracket := change r.bracket }

/-
  Read a part of a set. The end of the outermost set gives
  its depth.
-/
def step
    (f : Flags)
    (r : SetReading) :
    List Char → Option ((SetReading ⊕ Nat) × List Char)
| [] => none
| '[' :: cs =>
    match readNamedKind cs with
    | some (negated, rest) =>
        if allowsNamedKind f negated then
          some (.inl (r.edit (·.add 0)), rest)
        else
          none
    | none => do
        let (bracket, rest) ← readBracket f cs
        return (.inl ⟨bracket, r.bracket :: r.around⟩, rest)
| ']' :: cs =>
    let depth := r.bracket.depth + 1
    match r.around with
    | [] => some (.inr depth, cs)
    | outer :: around =>
        some (.inl ⟨outer.add depth, around⟩, cs)
| '&' :: '&' :: cs => some (.inl (r.edit (·.operate)), cs)
| '-' :: '-' :: cs => some (.inl (r.edit (·.operate)), cs)
| '~' :: '~' :: cs => some (.inl (r.edit (·.operate)), cs)
| cs => do
    let rest ← readRange f cs
    return (.inl (r.edit (·.add 0)), rest)

/- Read the rest of a set. Every part shortens the text. -/
def finish
    (f : Flags)
    (r : SetReading)
    (cs : List Char) : Option (Nat × List Char) :=
  match r.step f (skip f cs) with
  | none => none
  | some (.inr depth, rest) => some (depth, rest)
  | some (.inl r, rest) =>
      if _h : rest.length < cs.length then
        finish f r rest
      else
        none
termination_by cs.length

end SetReading

/- Read a set behind its first bracket, with its depth. -/
def readSet
    (f : Flags)
    (cs : List Char) : Option (Nat × List Char) := do
  let (bracket, rest) ← readBracket f cs
  SetReading.finish f { bracket := bracket } rest

end Pattern

end Abacus
