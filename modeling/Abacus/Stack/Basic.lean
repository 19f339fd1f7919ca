import Abacus.Fault
import Abacus.Opcode

/-
  The operand stack.

  A stack has a fixed number of slots and a count of those
  in use. An operation that has too little room or too few
  values fails.

  Key definitions include:
    * `Abacus.Stack`
    * `Abacus.Stack.toList`
    * `Abacus.Stack.push`
    * `Abacus.Stack.pop`
    * `Abacus.Stack.popPair`
    * `Abacus.Stack.peek`
    * `Abacus.Stack.setTop`
    * `Abacus.Stack.negate`
    * `Abacus.Stack.combine`
-/

------------------------------------------------------------
-- Stacks
------------------------------------------------------------

namespace Abacus

namespace Stack

/- The number of slots of a stack. -/
abbrev capacity : Nat :=
  256

end Stack

/- Slots for numbers, of which the first `top` are in use. -/
structure Stack where
  slots : Vector Number Stack.capacity
  top : Nat
  top_le : top ≤ Stack.capacity

namespace Stack

/- The stack without values. -/
def empty : Stack where
  slots := Vector.replicate capacity 0
  top := 0
  top_le := Nat.zero_le capacity

/- The values of a stack, the bottom one first. -/
def toList
    (s : Stack) : List Number :=
  s.slots.toList.take s.top

/- The number of values. -/
def size
    (s : Stack) : Nat :=
  s.top

/- Whether there are no values. -/
def isEmpty
    (s : Stack) : Bool :=
  s.top == 0

/- Forget all values. -/
def reset
    (s : Stack) : Stack :=
  { s with
    top := 0
    top_le := Nat.zero_le capacity }

end Stack

end Abacus

------------------------------------------------------------
-- Stack Operations
------------------------------------------------------------

namespace Abacus

namespace Stack

/- Put a value on top. -/
def push
    (s : Stack)
    (value : Number) : Except Cause Stack :=
  if h : s.top < capacity then
    .ok
      { slots := s.slots.set s.top value h
        top := s.top + 1
        top_le := h }
  else
    .error (.stackOverflow capacity)

/- Take the top value off. -/
def pop
    (s : Stack) : Except Cause (Number × Stack) :=
  if h : 0 < s.top then
    have hTop := s.top_le
    .ok
      ( s.slots[s.top - 1],
        { s with
          top := s.top - 1
          top_le := by omega } )
  else
    .error .stackUnderflow

/- Take the two top values off, the lower one first. -/
def popPair
    (s : Stack) :
    Except Cause (Number × Number × Stack) :=
  if h : 2 ≤ s.top then
    have hTop := s.top_le
    .ok
      ( s.slots[s.top - 2],
        s.slots[s.top - 1],
        { s with
          top := s.top - 2
          top_le := by omega } )
  else
    .error .stackUnderflow

/- The value at a distance from the top. -/
def peek
    (s : Stack)
    (distance : Nat) : Except Cause Number :=
  if h : distance < s.top then
    have hTop := s.top_le
    .ok s.slots[s.top - 1 - distance]
  else
    .error .stackUnderflow

/- The top value, if there is one. -/
def top?
    (s : Stack) : Option Number :=
  match s.peek 0 with
  | .ok value => some value
  | .error _ => none

/- Replace the top value. -/
def setTop
    (s : Stack)
    (value : Number) : Except Cause Stack :=
  if h : 0 < s.top then
    have hTop := s.top_le
    .ok
      { s with
        slots := s.slots.set (s.top - 1) value }
  else
    .error .stackUnderflow

/- Change the sign of the top value. -/
def negate
    (s : Stack) : Except Cause Stack :=
  match s.peek 0 with
  | .error cause => .error cause
  | .ok value => s.setTop (-value)

/-
  Replace the two top values by a function of them, the
  lower one first.
-/
def combine
    (s : Stack)
    (f : Number → Number → Number) :
    Except Cause Stack :=
  match s.popPair with
  | .error cause => .error cause
  | .ok (a, b, rest) => rest.push (f a b)

end Stack

end Abacus
