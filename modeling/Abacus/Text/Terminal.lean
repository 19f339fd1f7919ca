/-
  Texts for terminals.

  A text may hold characters that a terminal obeys instead
  of showing: control characters, and sequences that start
  with an escape. The plain form of a text leaves them out,
  so a message can quote any text without side effects.

  A sequence ends as its opening says. Two control
  characters cancel any sequence, and an escape starts the
  next one. What is not ended at the end of the text is left
  out as well. Tabs and line ends are shown even inside of
  the shorter sequences; then the rest of the sequence is
  either text, or left out once text has been shown up to
  the next control character.

  Key definitions include:
    * `Abacus.Text.Sequence`
    * `Abacus.Text.Mode`
    * `Abacus.Text.plain`
-/

------------------------------------------------------------
-- Characters
------------------------------------------------------------

namespace Abacus

namespace Text

/- Tabs and line ends, which are shown. -/
def isSpacing
    (c : Char) : Bool :=
  c == '\t' || c == '\n' || c == '\x0c' || c == '\r'

/- Other characters that are shown. -/
def isVisible
    (c : Char) : Bool :=
  0x20 ≤ c.toNat && c != '\x7f'

/- The characters that cancel a sequence. -/
def isCancel
    (c : Char) : Bool :=
  c == '\x18' || c == '\x1a'

/- Whether a character is within a range of codes. -/
def between
    (first last : Nat)
    (c : Char) : Bool :=
  first ≤ c.toNat && c.toNat ≤ last

/-
  Whether a character holds the byte that terminates the
  strings for devices, in its encoding.
-/
def holdsTerminator
    (c : Char) : Bool :=
  (String.utf8EncodeChar c).contains 0x9C

end Text

end Abacus

------------------------------------------------------------
-- Sequences
------------------------------------------------------------

namespace Abacus

namespace Text

/- The sequences, as far as they have been read. -/
inductive Sequence where
/- An escape. -/
| escape
/- An escape and what may stand before its last character. -/
| extended
/- A control sequence, as for a colour. -/
| control
/- A command to the terminal, as for a title. -/
| command
/- A request to a device. -/
| request
/- The parameters of a request. -/
| parameters
/- What may stand behind the parameters of a request. -/
| selection
/- A string for a device. -/
| string
deriving DecidableEq

/- What a tab or a line end does to a sequence. -/
inductive Spacing where
/- The sequence ends. -/
| ends
/- The sequence goes on at the next control character. -/
| suspends
deriving DecidableEq

/- Where in its sequences a text is. -/
inductive Mode where
/- Outside of sequences. -/
| ground
/- In a sequence. -/
| within (s : Sequence)
/- In text that interrupts a sequence. -/
| aside (s : Sequence)
deriving DecidableEq

namespace Sequence

/- Whether tabs and line ends are shown in a sequence. -/
def showsSpacing :
    Sequence → Bool
| .escape => true
| .extended => true
| .control => true
| .command => false
| .request => false
| .parameters => false
| .selection => false
| .string => false

/- The mode behind the character that follows an escape. -/
def opened
    (c : Char) : Mode :=
  if c == '[' then
    .within .control
  else if c == ']' then
    .within .command
  else if c == 'P' then
    .within .request
  else if c == 'X' || c == '^' || c == '_' then
    .within .string
  else if between 0x20 0x2f c then
    .within .extended
  else if between 0x30 0x7e c then
    .ground
  else
    .within .escape

/-
  The mode behind the next character. What is not mentioned
  belongs to the sequence and changes nothing.
-/
def next
    (c : Char) :
    Sequence → Mode
| .escape => opened c
| .extended =>
    if between 0x30 0x7e c then
      .ground
    else
      .within .extended
| .control =>
    if between 0x40 0x7e c then
      .ground
    else
      .within .control
| .command =>
    if c == '\x07' then
      .ground
    else
      .within .command
| .request =>
    if between 0x20 0x2f c then
      .within .selection
    else if between 0x30 0x3f c then
      .within .parameters
    else if between 0x40 0x7e c then
      .within .string
    else
      .within .request
| .parameters =>
    if between 0x20 0x2f c then
      .within .selection
    else if between 0x3c 0x7e c then
      .within .string
    else
      .within .parameters
| .selection =>
    if between 0x30 0x7e c then
      .within .string
    else
      .within .selection
| .string =>
    if holdsTerminator c then
      .ground
    else
      .within .string

end Sequence

end Text

end Abacus

------------------------------------------------------------
-- Modes
------------------------------------------------------------

namespace Abacus

namespace Text

namespace Mode

/- Whether a character is shown. -/
def shows
    (c : Char) :
    Mode → Bool
| .ground => isVisible c || isSpacing c
| .aside _ => isVisible c || isSpacing c
| .within s => s.showsSpacing && isSpacing c

/- The mode behind a tab or a line end in a sequence. -/
def spaced
    (s : Sequence) :
    Spacing → Mode
| .ends => .ground
| .suspends => .aside s

/-
  The mode behind a character that neither cancels nor opens
  a sequence. In text that interrupts a sequence, characters
  beyond ASCII end the sequence for good.
-/
def continued
    (spacing : Spacing)
    (c : Char) :
    Mode → Mode
| .ground => .ground
| .within s =>
    if s.showsSpacing && isSpacing c then
      spaced s spacing
    else
      s.next c
| .aside s =>
    if between 0 0x7f c then
      if isVisible c || isSpacing c then
        .aside s
      else
        .within s
    else
      .ground

/- The mode behind a character. -/
def next
    (spacing : Spacing)
    (c : Char)
    (m : Mode) : Mode :=
  if c == '\x1b' then
    .within .escape
  else if isCancel c then
    .ground
  else
    m.continued spacing c

end Mode

end Text

end Abacus

------------------------------------------------------------
-- Plain Texts
------------------------------------------------------------

namespace Abacus

namespace Text

/- What is shown of a text that starts in a mode. -/
def plainFrom
    (spacing : Spacing)
    (m : Mode) :
    List Char → List Char
| [] => []
| c :: cs =>
    if m.shows c then
      c :: plainFrom spacing (m.next spacing c) cs
    else
      plainFrom spacing (m.next spacing c) cs

/- What is shown of a text. -/
def plain
    (spacing : Spacing)
    (text : String) : String :=
  String.ofList (plainFrom spacing .ground text.toList)

end Text

end Abacus
