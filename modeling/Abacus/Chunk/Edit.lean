import Abacus.Chunk.Basic
import Abacus.Log.Event

/-
  Building chunks.

  A chunk only grows. An edit adds a byte, an instruction,
  or a constant. The pool holds as many constants as a
  one-byte index can name; an edit that would add one more
  is refused and changes nothing.

  Key definitions include:
    * `Abacus.Chunk.write`
    * `Abacus.Chunk.emit`
    * `Abacus.Chunk.addConstant`
    * `Abacus.Chunk.emitConstant`
    * `Abacus.Edit`
    * `Abacus.Chunk.apply`
    * `Abacus.Chunk.ofEdits`
    * `Abacus.Chunk.assemble`
-/

------------------------------------------------------------
-- Adding Code And Constants
------------------------------------------------------------

namespace Abacus

/- A constant was refused by a pool of this capacity. -/
structure PoolFull where
  capacity : Nat
deriving DecidableEq

namespace PoolFull

/- The wording of a refusal. -/
def message
    (e : PoolFull) : String :=
  "constant pool is full (" ++ Nat.repr e.capacity ++
    " entries)"

end PoolFull

namespace Chunk

/- The number of constants that a pool can hold. -/
def poolCapacity : Nat :=
  256

/- Add a code byte. -/
def write
    (c : Chunk)
    (byte : UInt8)
    (position : Position) : Chunk :=
  { c with
    code := c.code.push byte
    positions := c.positions.push position }

/- Add an opcode byte. -/
def emit
    (c : Chunk)
    (op : Opcode)
    (position : Position) : Chunk :=
  c.write op.toByte position

/- Add a constant, and give its index. -/
def addConstant
    (c : Chunk)
    (value : Number) :
    Except PoolFull (Chunk × UInt8) :=
  if c.constants.size < poolCapacity then
    .ok
      ( { c with constants := c.constants.push value },
        UInt8.ofNat c.constants.size )
  else
    .error ⟨poolCapacity⟩

/-
  Add a constant and the instruction that pushes it, both
  bytes of it at one position, and give the index.
-/
def emitConstant
    (c : Chunk)
    (value : Number)
    (position : Position) :
    Except PoolFull (Chunk × UInt8) :=
  match c.addConstant value with
  | .error full => .error full
  | .ok (c, index) =>
      .ok
        ( (c.emit .constant position).write index position,
          index )

end Chunk

end Abacus

------------------------------------------------------------
-- Edits
------------------------------------------------------------

namespace Abacus

/- One step of building a chunk. -/
inductive Edit where
| byte (byte : UInt8) (position : Position)
| op (op : Opcode) (position : Position)
| constant (value : Number)
| push (value : Number) (position : Position)
deriving DecidableEq

/-
  What an edit did: the chunk after it, the index of a
  constant that was added or the refusal, and what was
  logged.
-/
structure Edited where
  chunk : Chunk
  reply : Except PoolFull (Option UInt8)
  log : List Event

namespace Chunk

/- The outcome of adding a constant to a chunk. -/
def settle
    (c : Chunk)
    (value : Number) :
    Except PoolFull (Chunk × UInt8) → Edited
| .ok (chunk, index) => ⟨chunk, .ok (some index), []⟩
| .error full => ⟨c, .error full, [.poolFull value]⟩

/- Apply an edit. -/
def apply
    (c : Chunk) :
    Edit → Edited
| .byte byte position =>
    ⟨c.write byte position, .ok none, []⟩
| .op op position =>
    ⟨c.emit op position, .ok none, []⟩
| .constant value =>
    c.settle value (c.addConstant value)
| .push value position =>
    c.settle value (c.emitConstant value position)

/- Apply edits one after the other, also after a refusal. -/
def applyAll
    (c : Chunk)
    (edits : List Edit) : Chunk :=
  edits.foldl (fun c edit => (c.apply edit).chunk) c

/- The chunk that edits build from nothing. -/
def ofEdits
    (edits : List Edit) : Chunk :=
  empty.applyAll edits

end Chunk

end Abacus

------------------------------------------------------------
-- Assembling
------------------------------------------------------------

namespace Abacus

/- A chunk put together in one go, or the first refusal. -/
structure Assembled where
  result : Except PoolFull Chunk
  log : List Event

namespace Chunk

/- Apply edits up to the first refusal. -/
def assembleFrom
    (c : Chunk) :
    List Edit → Assembled
| [] => ⟨.ok c, []⟩
| edit :: edits =>
    let edited := c.apply edit
    match edited.reply with
    | .error full => ⟨.error full, edited.log⟩
    | .ok _ => edited.chunk.assembleFrom edits

/- Put a chunk together from its constants and its code. -/
def assemble
    (constants : List Number)
    (code : List (UInt8 × Position)) : Assembled :=
  empty.assembleFrom
    (constants.map Edit.constant ++
      code.map fun (byte, position) =>
        Edit.byte byte position)

end Chunk

end Abacus
