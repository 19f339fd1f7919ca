import Abacus.Position

/-
  Runtime faults.

  A cause says what went wrong; a fault says also where: at
  the opcode byte of the instruction that did not complete.

  Key definitions include:
    * `Abacus.Cause`
    * `Abacus.Cause.message`
    * `Abacus.Fault`
    * `Abacus.Fault.text`
-/

------------------------------------------------------------
-- Causes
------------------------------------------------------------

namespace Abacus

/- What can go wrong while a chunk runs. -/
inductive Cause where
| stackOverflow (capacity : Nat)
| stackUnderflow
| invalidConstant (index poolSize : Nat)
| invalidOpcode (byte : UInt8) (offset : Nat)
| missingOperand (offset : Nat)
| unexpectedEnd (offset : Nat)
| stepLimitExceeded (limit : Nat)
deriving DecidableEq

namespace Cause

/- The wording of a cause. -/
def message :
    Cause → String
| .stackOverflow capacity =>
    "stack overflow (capacity " ++ Nat.repr capacity ++ ")"
| .stackUnderflow => "stack underflow"
| .invalidConstant index poolSize =>
    "invalid constant index " ++ Nat.repr index ++
      " (pool has " ++ Nat.repr poolSize ++ " entries)"
| .invalidOpcode byte _ =>
    "invalid opcode " ++ Nat.repr byte.toNat
| .missingOperand _ => "missing operand"
| .unexpectedEnd _ =>
    "reached end of code without a return"
| .stepLimitExceeded limit =>
    "step limit of " ++ Nat.repr limit ++
      " instructions exceeded"

end Cause

end Abacus

------------------------------------------------------------
-- Faults
------------------------------------------------------------

namespace Abacus

/-
  A cause, the offset of the instruction that met it, and
  the source position of that instruction. There is no
  position behind the end of the code.
-/
structure Fault where
  cause : Cause
  offset : Nat
  position : Option Position
deriving DecidableEq

namespace Fault

/- The text of a position behind a message. -/
def positionText :
    Option Position → String
| none => ""
| some p => " (" ++ p.text ++ ")"

/- The text of a fault. -/
def text
    (f : Fault) : String :=
  f.cause.message ++ " at offset " ++ Nat.repr f.offset ++
    positionText f.position

end Fault

end Abacus
