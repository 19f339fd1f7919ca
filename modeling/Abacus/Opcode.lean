import Abacus.Number.Basic

/-
  Operators and operation codes.

  An instruction starts with one byte, its opcode. Only the
  constant instruction has an operand, one more byte.

  Key definitions include:
    * `Abacus.Operator`
    * `Abacus.Operator.apply`
    * `Abacus.Opcode`
    * `Abacus.Opcode.toByte`
    * `Abacus.Opcode.ofByte?`
    * `Abacus.Opcode.width`
-/

------------------------------------------------------------
-- Operators
------------------------------------------------------------

namespace Abacus

/- The arithmetic of two numbers. -/
inductive Operator where
| add
| subtract
| multiply
| divide
deriving DecidableEq

namespace Operator

/- Apply an operator to its left and right argument. -/
def apply :
    Operator → Number → Number → Number
| .add, a, b => a + b
| .subtract, a, b => a - b
| .multiply, a, b => a * b
| .divide, a, b => a / b

end Operator

end Abacus

------------------------------------------------------------
-- Opcodes
------------------------------------------------------------

namespace Abacus

/- The operations of the machine. -/
inductive Opcode where
| constant
| negate
| binary (operator : Operator)
| ret
deriving DecidableEq

namespace Opcode

/- The byte that stands for an operation. -/
def toByte :
    Opcode → UInt8
| .constant => 0
| .negate => 1
| .binary .add => 2
| .binary .subtract => 3
| .binary .multiply => 4
| .binary .divide => 5
| .ret => 6

/- The operation that a byte stands for. -/
def ofByte?
    (byte : UInt8) : Option Opcode :=
  match byte.toNat with
  | 0 => some .constant
  | 1 => some .negate
  | 2 => some (.binary .add)
  | 3 => some (.binary .subtract)
  | 4 => some (.binary .multiply)
  | 5 => some (.binary .divide)
  | 6 => some .ret
  | _ => none

/- Every operation is read back from its byte. -/
@[simp] theorem ofByte?_toByte
    (op : Opcode) :
    ofByte? op.toByte = some op := by
  cases op with
  | binary operator => cases operator <;> rfl
  | _ => rfl

/- The number of bytes of an instruction. -/
def width :
    Opcode → Nat
| .constant => 2
| _ => 1

/- The name of an operation in listings. -/
def mnemonic :
    Opcode → String
| .constant => "OP_CONSTANT"
| .negate => "OP_NEGATE"
| .binary .add => "OP_ADD"
| .binary .subtract => "OP_SUBTRACT"
| .binary .multiply => "OP_MULTIPLY"
| .binary .divide => "OP_DIVIDE"
| .ret => "OP_RETURN"

end Opcode

end Abacus
