import Abacus.Machine.Run
import Abacus.Proofs.Program.Values

/-
  Programs, and what they do to a list of values.

  The bytes of a chunk are decoded once, from the front, to
  a list of tokens and a tail, each with its offset. The
  tokens are then executed one after the other on a plain
  list of values, up to the first that returns or fails.
  There is no instruction pointer and no array of slots.

  Main declarations:
    * `Token`, `Tail` and `Program`
    * `Program.induction_cons`
    * `Program.decode`
    * `Token.effect`
    * `Program.exec`
    * `Chunk.outcome`
-/

------------------------------------------------------------
-- Programs
------------------------------------------------------------

namespace Abacus

/- An instruction of the code, a constant by its index. -/
inductive Token where
| constant (index : UInt8)
| negate
| binary (operator : Operator)
| ret
deriving DecidableEq

/- What stands where no more tokens can be decoded. -/
inductive Tail where
| endOfCode
| missingOperand
| unknown (byte : UInt8)
deriving DecidableEq

/- Tokens and a tail, each with its offset. -/
structure Program where
  tokens : List (Nat × Token)
  tail : Nat × Tail
deriving DecidableEq

namespace Program

/- A program with one more token in front. -/
def cons
    (offset : Nat)
    (token : Token)
    (p : Program) : Program :=
  { p with tokens := (offset, token) :: p.tokens }

/- Every program is a tail with tokens in front of it. -/
theorem induction_cons
    {motive : Program → Prop}
    (tail : ∀ offset tail, motive ⟨[], offset, tail⟩)
    (cons :
      ∀ offset token p,
        motive p → motive (p.cons offset token))
    (p : Program) :
    motive p := by
  rcases p with ⟨tokens, offset, last⟩
  induction tokens with
  | nil => exact tail offset last
  | cons first tokens ih =>
      exact cons first.1 first.2 ⟨tokens, offset, last⟩ ih

/- Decode bytes, of which the first is at `offset`. -/
def decode
    (offset : Nat) :
    List UInt8 → Program
| [] => ⟨[], offset, .endOfCode⟩
| [0] => ⟨[], offset, .missingOperand⟩
| 0 :: index :: rest =>
    (decode (offset + 2) rest).cons offset (.constant index)
| 1 :: rest =>
    (decode (offset + 1) rest).cons offset .negate
| 2 :: rest =>
    (decode (offset + 1) rest).cons offset (.binary .add)
| 3 :: rest =>
    (decode (offset + 1) rest).cons offset
      (.binary .subtract)
| 4 :: rest =>
    (decode (offset + 1) rest).cons offset
      (.binary .multiply)
| 5 :: rest =>
    (decode (offset + 1) rest).cons offset (.binary .divide)
| 6 :: rest =>
    (decode (offset + 1) rest).cons offset .ret
| byte :: _ => ⟨[], offset, .unknown byte⟩

end Program

end Abacus

------------------------------------------------------------
-- Execution
------------------------------------------------------------

namespace Abacus

namespace Token

/-
  What a token does to the values, the top one first. An
  operator has the lower value as its left argument. A token
  that stops gives the cause, or none if it returns.
-/
def effect
    (pool : List Number) :
    Token → List Number →
      Except (Option Cause) (List Number)
| .constant index, values =>
    match pool[index.toNat]? with
    | none =>
        .error
          (some (.invalidConstant index.toNat pool.length))
    | some value =>
        if values.length < Stack.capacity then
          .ok (value :: values)
        else
          .error (some (.stackOverflow Stack.capacity))
| .negate, value :: rest => .ok (value.opposite :: rest)
| .negate, [] => .error (some .stackUnderflow)
| .binary .add, b :: a :: rest =>
    .ok (Number.binary64 (· + ·) a b :: rest)
| .binary .subtract, b :: a :: rest =>
    .ok (Number.binary64 (· - ·) a b :: rest)
| .binary .multiply, b :: a :: rest =>
    .ok (Number.binary64 (· * ·) a b :: rest)
| .binary .divide, b :: a :: rest =>
    .ok (Number.binary64 (· / ·) a b :: rest)
| .binary _, _ => .error (some .stackUnderflow)
| .ret, _ => .error none

/- An operator lacks an argument without two values. -/
theorem effect_binary_of_few
    {values : List Number}
    (hFew : values.length < 2)
    (pool : List Number)
    (operator : Operator) :
    (Token.binary operator).effect pool values =
      .error (some .stackUnderflow) := by
  rcases values with _ | ⟨b, _ | ⟨a, rest⟩⟩
  · cases operator <;> rfl
  · cases operator <;> rfl
  · simp only [List.length_cons] at hFew
    omega

end Token

namespace Tail

/- The cause of a fault at a tail. -/
def cause
    (offset : Nat) :
    Tail → Cause
| .endOfCode => .unexpectedEnd offset
| .missingOperand => .missingOperand offset
| .unknown byte => .invalidOpcode byte offset

end Tail

/-
  How an execution ended: the values that are left, the top
  one first, the number of steps, and the fault if any.
-/
structure Outcome where
  values : List Number
  steps : Nat
  fault : Option Fault
deriving DecidableEq

namespace Outcome

/- The verdict on an execution. -/
def verdict
    (o : Outcome) : Verdict :=
  match o.fault with
  | none => .ok
  | some _ => .runtimeError

end Outcome

namespace Program

/- The cause to stop for, if `steps` steps are the limit. -/
def refusal?
    (limit : Option Nat)
    (steps : Nat) : Option Cause :=
  (limit.filter (· ≤ steps)).map .stepLimitExceeded

/-
  Execute tokens, and then meet the tail. A step that is
  refused by the limit is not counted.
-/
def execTokens
    (c : Chunk)
    (limit : Option Nat)
    (tail : Nat × Tail) :
    List (Nat × Token) → Nat → List Number → Outcome
| [], steps, values =>
    match refusal? limit steps with
    | some cause =>
        ⟨values, steps,
          some ⟨cause, tail.1, c.position? tail.1⟩⟩
    | none =>
        ⟨values, steps + 1,
          some
            ⟨tail.2.cause tail.1, tail.1,
              c.position? tail.1⟩⟩
| (offset, token) :: rest, steps, values =>
    match refusal? limit steps with
    | some cause =>
        ⟨values, steps,
          some ⟨cause, offset, c.position? offset⟩⟩
    | none =>
        match token.effect c.constants.toList values with
        | .ok values =>
            execTokens c limit tail rest (steps + 1) values
        | .error stop =>
            ⟨values, steps + 1,
              stop.map fun cause =>
                ⟨cause, offset, c.position? offset⟩⟩

/- Execute a program after some steps, on some values. -/
def exec
    (c : Chunk)
    (limit : Option Nat)
    (p : Program)
    (steps : Nat)
    (values : List Number) : Outcome :=
  execTokens c limit p.tail p.tokens steps values

end Program

namespace Chunk

/- How the execution of a chunk ends. -/
def outcome
    (c : Chunk)
    (limit : Option Nat) : Outcome :=
  (Program.decode 0 c.code.toList).exec c limit 0 []

end Chunk

end Abacus

------------------------------------------------------------
-- Execution Step By Step
------------------------------------------------------------

namespace Abacus

namespace Program

variable {c : Chunk}
variable {limit : Option Nat}
variable {p : Program}
variable {offset steps : Nat}
variable {token : Token}
variable {tail : Tail}
variable {values : List Number}

/- The limit stops an execution before its next token. -/
theorem exec_cons_of_refused
    {cause : Cause}
    (hRefused : refusal? limit steps = some cause) :
    (p.cons offset token).exec c limit steps values =
      ⟨values, steps,
        some ⟨cause, offset, c.position? offset⟩⟩ := by
  simp [exec, cons, execTokens, hRefused]

/- A token that goes on hands its values to the rest. -/
theorem exec_cons_of_ok
    {values' : List Number}
    (hAllowed : refusal? limit steps = none)
    (hEffect :
      token.effect c.constants.toList values =
        .ok values') :
    (p.cons offset token).exec c limit steps values =
      p.exec c limit (steps + 1) values' := by
  simp [exec, cons, execTokens, hAllowed, hEffect]

/- A token that stops is the last one. -/
theorem exec_cons_of_stop
    {stop : Option Cause}
    (hAllowed : refusal? limit steps = none)
    (hEffect :
      token.effect c.constants.toList values =
        .error stop) :
    (p.cons offset token).exec c limit steps values =
      ⟨values, steps + 1,
        stop.map fun cause =>
          ⟨cause, offset, c.position? offset⟩⟩ := by
  simp [exec, cons, execTokens, hAllowed, hEffect]

/- The limit stops an execution before its tail. -/
theorem exec_tail_of_refused
    {cause : Cause}
    (hRefused : refusal? limit steps = some cause) :
    (Program.mk [] (offset, tail)).exec c limit steps
        values =
      ⟨values, steps,
        some ⟨cause, offset, c.position? offset⟩⟩ := by
  simp [exec, execTokens, hRefused]

/- A tail is a fault. -/
theorem exec_tail
    (hAllowed : refusal? limit steps = none) :
    (Program.mk [] (offset, tail)).exec c limit steps
        values =
      ⟨values, steps + 1,
        some
          ⟨tail.cause offset, offset,
            c.position? offset⟩⟩ := by
  simp [exec, execTokens, hAllowed]

end Program

end Abacus
