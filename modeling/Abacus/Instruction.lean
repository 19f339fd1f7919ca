import Abacus.Chunk.Basic
import Abacus.Stack.Basic

/-
  Instructions.

  An instruction is fetched from the code of a chunk, byte
  by byte, and executed on a stack. Fetching fails at the
  end of the code, at a byte that is no opcode, and at a
  constant whose operand is missing or is not in the pool.

  Key definitions include:
    * `Abacus.Instruction`
    * `Abacus.Instruction.execute`
    * `Abacus.Chunk.fetch`
-/

------------------------------------------------------------
-- Instructions
------------------------------------------------------------

namespace Abacus

/- What the machine is told to do. -/
inductive Instruction where
| push (value : Number)
| negate
| binary (operator : Operator)
| ret
deriving DecidableEq

namespace Instruction

/- The operation of an instruction. -/
def opcode :
    Instruction → Opcode
| .push _ => .constant
| .negate => .negate
| .binary operator => .binary operator
| .ret => .ret

/- The number of bytes of an instruction. -/
def width
    (i : Instruction) : Nat :=
  i.opcode.width

/- Every instruction has a byte. -/
theorem width_pos
    (i : Instruction) :
    0 < i.width := by
  cases i <;> simp [width, opcode, Opcode.width]

/- What an instruction does to the stack. -/
def execute :
    Instruction → Stack → Except Cause Stack
| .push value, s => s.push value
| .negate, s => s.negate
| .binary operator, s => s.combine operator.apply
| .ret, s => .ok s

end Instruction

end Abacus

------------------------------------------------------------
-- Fetching
------------------------------------------------------------

namespace Abacus

namespace Chunk

/-
  Read the constant instruction whose opcode is at `offset`.
-/
def fetchConstant
    (c : Chunk)
    (offset : Nat) : Except Cause Instruction × Nat :=
  match c.code[offset + 1]? with
  | none => (.error (.missingOperand offset), offset + 1)
  | some index =>
      match c.constant? index.toNat with
      | none =>
          ( .error
              (.invalidConstant
                index.toNat c.constants.size),
            offset + 2 )
      | some value => (.ok (.push value), offset + 2)

/-
  Read the instruction whose opcode is at `offset`, and give
  the offset behind the bytes that were read.
-/
def fetch
    (c : Chunk)
    (offset : Nat) : Except Cause Instruction × Nat :=
  match c.code[offset]? with
  | none => (.error (.unexpectedEnd offset), offset)
  | some byte =>
      match Opcode.ofByte? byte with
      | none =>
          (.error (.invalidOpcode byte offset), offset + 1)
      | some .constant => c.fetchConstant offset
      | some .negate => (.ok .negate, offset + 1)
      | some (.binary operator) =>
          (.ok (.binary operator), offset + 1)
      | some .ret => (.ok .ret, offset + 1)

/- A constant instruction is two bytes of the code. -/
theorem fetchConstant_ok
    {c : Chunk}
    {offset next : Nat}
    {i : Instruction}
    (h : c.fetchConstant offset = (.ok i, next)) :
    next = offset + i.width ∧ next ≤ c.size := by
  unfold fetchConstant at h
  split at h
  · cases h
  · rename_i index hIndex
    have hLt := (Array.getElem?_eq_some_iff.mp hIndex).1
    split at h
    · cases h
    · cases h
      exact ⟨rfl, hLt⟩

/-
  An instruction lies within the code, and reading it moves
  on by its width.
-/
theorem fetch_ok
    {c : Chunk}
    {offset next : Nat}
    {i : Instruction}
    (h : c.fetch offset = (.ok i, next)) :
    next = offset + i.width ∧ next ≤ c.size := by
  unfold fetch at h
  split at h
  · cases h
  · rename_i byte hByte
    have hLt := (Array.getElem?_eq_some_iff.mp hByte).1
    split at h
    · cases h
    · exact fetchConstant_ok h
    all_goals
      cases h
      exact ⟨rfl, hLt⟩

end Chunk

end Abacus
