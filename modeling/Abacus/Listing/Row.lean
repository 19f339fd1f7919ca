import Abacus.Chunk.Basic
import Abacus.Number.Text
import Abacus.Text.Numeral

/-
  Rows of a listing.

  A row shows the instruction at an offset of any code. What
  the bytes there mean is decided byte by byte, so a row can
  show an unknown opcode, an operand that is missing, or an
  index that the pool does not have. A bar stands in for a
  line that was shown just before.

  Key definitions include:
    * `Abacus.Row`
    * `Abacus.Row.next`
    * `Abacus.Row.text`
    * `Abacus.Row.parts`
    * `Abacus.Chunk.rowAfter`
    * `Abacus.Chunk.rowAt`
-/

------------------------------------------------------------
-- Rows
------------------------------------------------------------

namespace Abacus

namespace Row

/- The source position of a row, as it is shown. -/
inductive Place where
| fresh (position : Position)
| repeated (col : Nat)
| absent
deriving DecidableEq

/- The instruction of a row. -/
inductive Body where
| plain (op : Opcode)
| constant (value : Number)
| invalidConstant (index : UInt8)
| missingOperand
| unknown (byte : UInt8)
deriving DecidableEq

/- The number of code bytes that a row steps over. -/
def Body.width :
    Body → Nat
| .plain _ => 1
| .constant _ => 2
| .invalidConstant _ => 2
| .missingOperand => 2
| .unknown _ => 1

end Row

/- A row shows an instruction or the end of the code. -/
inductive Row where
| code (offset : Nat) (place : Row.Place) (body : Row.Body)
| endOfCode (offset : Nat)
deriving DecidableEq

namespace Row

/- The offset of a row. -/
def offset :
    Row → Nat
| .code offset _ _ => offset
| .endOfCode offset => offset

/- The offset behind a row. -/
def next :
    Row → Nat
| .code offset _ body => offset + body.width
| .endOfCode offset => offset + 1

/- Every row steps forward. -/
theorem offset_lt_next
    (row : Row) :
    row.offset < row.next := by
  cases row with
  | endOfCode offset =>
      simp [Row.offset, Row.next]
  | code offset place body =>
      cases body <;>
        simp [Row.offset, Row.next, Body.width]

end Row

end Abacus

------------------------------------------------------------
-- Row Text
------------------------------------------------------------

namespace Abacus

namespace Row

/- Numbers of a row have at least four digits. -/
def cell
    (n : Nat) : String :=
  Text.padded 4 n

/- The line and the column, each with a tab behind it. -/
def Place.text :
    Place → String
| .fresh position =>
    cell position.line ++ "\t" ++ cell position.col ++ "\t"
| .repeated col => "|\t" ++ cell col ++ "\t"
| .absent => "?\t?\t"

/- The instruction and its value. -/
def Body.text :
    Body → String
| .plain op => op.mnemonic
| .constant value =>
    Opcode.constant.mnemonic ++ "\t" ++ Number.text value
| .invalidConstant index =>
    Opcode.constant.mnemonic ++ "\t<invalid constant #" ++
      Nat.repr index.toNat ++ ">"
| .missingOperand =>
    Opcode.constant.mnemonic ++ "\t<missing operand>"
| .unknown byte =>
    "Unknown opcode " ++ Nat.repr byte.toNat

/- The line of text of a row. -/
def text :
    Row → String
| .code offset place body =>
    cell offset ++ "\t" ++ place.text ++ body.text ++ "\n"
| .endOfCode offset =>
    cell offset ++ "\t<end of code>\n"

/- The parts of a row that are written one by one. -/
def parts :
    Row → List String
| .code offset place body =>
    [cell offset ++ "\t", place.text, body.text ++ "\n"]
| .endOfCode offset =>
    [cell offset ++ "\t<end of code>\n"]

/- The parts of a row make up its line of text. -/
@[simp] theorem join_parts
    (row : Row) :
    String.join row.parts = row.text := by
  cases row with
  | code offset place body =>
      simp [parts, text, String.append_assoc]
  | endOfCode offset => simp [parts, text]

end Row

end Abacus

------------------------------------------------------------
-- Rows Of A Chunk
------------------------------------------------------------

namespace Abacus

namespace Chunk

/- The position at `offset`, after a row of some line. -/
def placeAfter
    (c : Chunk)
    (previous : Option Nat)
    (offset : Nat) : Row.Place :=
  match c.position? offset with
  | none => .absent
  | some position =>
      if previous = some position.line then
        .repeated position.col
      else
        .fresh position

/- The constant instruction at `offset`. -/
def constantAt
    (c : Chunk)
    (offset : Nat) : Row.Body :=
  match c.code[offset + 1]? with
  | none => .missingOperand
  | some index =>
      match c.constant? index.toNat with
      | none => .invalidConstant index
      | some value => .constant value

/- The instruction at `offset` that starts with `byte`. -/
def bodyAt
    (c : Chunk)
    (offset : Nat)
    (byte : UInt8) : Row.Body :=
  match Opcode.ofByte? byte with
  | none => .unknown byte
  | some .constant => c.constantAt offset
  | some op => .plain op

/- The row at `offset`, after a row of some line. -/
def rowAfter
    (c : Chunk)
    (previous : Option Nat)
    (offset : Nat) : Row :=
  match c.code[offset]? with
  | none => .endOfCode offset
  | some byte =>
      .code offset
        (c.placeAfter previous offset)
        (c.bodyAt offset byte)

/- The line of the byte just before `offset`. -/
def lineBefore? :
    Chunk → Nat → Option Nat
| _, 0 => none
| c, offset + 1 => c.line? offset

/-
  The row at `offset` by itself. Its line is compared with
  that of the byte just before it.
-/
def rowAt
    (c : Chunk)
    (offset : Nat) : Row :=
  c.rowAfter (c.lineBefore? offset) offset

/- A row is at the offset that it was asked for. -/
@[simp] theorem offset_rowAfter
    (c : Chunk)
    (previous : Option Nat)
    (offset : Nat) :
    (c.rowAfter previous offset).offset = offset := by
  unfold rowAfter
  split <;> rfl

/- The row behind a row is further on. -/
theorem lt_next_rowAfter
    (c : Chunk)
    (previous : Option Nat)
    (offset : Nat) :
    offset < (c.rowAfter previous offset).next := by
  have h := (c.rowAfter previous offset).offset_lt_next
  rwa [offset_rowAfter] at h

end Chunk

end Abacus
