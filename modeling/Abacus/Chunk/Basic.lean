import Abacus.Opcode
import Abacus.Position

/-
  Chunks.

  A chunk is a piece of code: its bytes, a source position
  for every byte, and a pool of constants that instructions
  refer to by a one-byte index.

  Key definitions include:
    * `Abacus.Chunk`
    * `Abacus.Chunk.position?`
    * `Abacus.Chunk.constant?`
    * `Abacus.Chunk.agrees`
-/

------------------------------------------------------------
-- Chunks
------------------------------------------------------------

namespace Abacus

/- Code bytes, their positions, and a pool of constants. -/
structure Chunk where
  code : Array UInt8 := #[]
  positions : Array Position := #[]
  constants : Array Number := #[]
deriving DecidableEq

namespace Chunk

/- The chunk without code and constants. -/
def empty : Chunk := {}

/- The number of code bytes. -/
def size
    (c : Chunk) : Nat :=
  c.code.size

/- The source position of a code byte. -/
def position?
    (c : Chunk)
    (offset : Nat) : Option Position :=
  c.positions[offset]?

/- The source line of a code byte. -/
def line?
    (c : Chunk)
    (offset : Nat) : Option Nat :=
  (c.position? offset).map Position.line

/- The constant of an index. -/
def constant?
    (c : Chunk)
    (index : Nat) : Option Number :=
  c.constants[index]?

/-
  Whether two chunks agree. Constants are compared as
  numbers, so zeros of either sign agree and a NaN agrees
  with nothing.
-/
def agrees
    (c d : Chunk) : Bool :=
  c.code == d.code &&
    c.positions == d.positions &&
    Array.isEqv c.constants d.constants Number.equals

end Chunk

end Abacus
