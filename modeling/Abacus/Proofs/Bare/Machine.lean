import Abacus.Proofs.Bare.Stack
import Abacus.Proofs.Machine.Completed

/-
  The machine on machine words.

  A bare machine has a bare stack, and counts its offset and
  its steps in words. A counter that wraps around is a trap,
  as is a slot out of range. As long as the code has fewer
  bytes than a word can count, a bare machine that starts
  like a machine does the same and never traps.

  Main declarations:
    * `Abacus.BareMachine`
    * `Abacus.BareMachine.step`
    * `Abacus.BareMachine.run`
    * `Abacus.Chunk.fetchBare_ofNat`
    * `Abacus.Machine.bare_step`
    * `Abacus.Machine.bare_run`
-/

------------------------------------------------------------
-- Fetching
------------------------------------------------------------

namespace Abacus

namespace Chunk

/-
  Read the constant instruction whose opcode is at `offset`,
  right before `next`.
-/
def fetchConstantBare
    (c : Chunk)
    (offset next : UInt64) :
    Option (Except Cause Instruction × UInt64) :=
  match c.code[next.toNat]? with
  | none =>
      some (.error (.missingOperand offset.toNat), next)
  | some index => do
      let after ← Word.plus? next 1
      match c.constant? index.toNat with
      | none =>
          some
            ( .error
                (.invalidConstant
                  index.toNat c.constants.size),
              after )
      | some value => some (.ok (.push value), after)

/- Read the instruction whose opcode is at `offset`. -/
def fetchBare
    (c : Chunk)
    (offset : UInt64) :
    Option (Except Cause Instruction × UInt64) :=
  match c.code[offset.toNat]? with
  | none =>
      some (.error (.unexpectedEnd offset.toNat), offset)
  | some byte => do
      let next ← Word.plus? offset 1
      match Opcode.ofByte? byte with
      | none =>
          some
            (.error (.invalidOpcode byte offset.toNat), next)
      | some .constant => c.fetchConstantBare offset next
      | some .negate => some (.ok .negate, next)
      | some (.binary operator) =>
          some (.ok (.binary operator), next)
      | some .ret => some (.ok .ret, next)

variable {c : Chunk}
variable {offset : Nat}

/- An offset within the code is a word. -/
theorem toNat_ofNat_offset
    (hFits : c.size < UInt64.size)
    (hBound : offset ≤ c.size) :
    (UInt64.ofNat offset).toNat = offset :=
  UInt64.toNat_ofNat_of_lt' (by omega)

/- So is the offset behind a byte of the code. -/
theorem plus?_of_byte
    (hFits : c.size < UInt64.size)
    {byte : UInt8}
    (hByte : c.code[offset]? = some byte) :
    offset + 1 ≤ c.size ∧
      Word.plus? (.ofNat offset) 1 =
        some (.ofNat (offset + 1)) := by
  have hIn : offset + 1 ≤ c.size :=
    (Array.getElem?_eq_some_iff.mp hByte).1
  exact ⟨hIn,
    Word.plus?_ofNat (Nat.lt_of_le_of_lt hIn hFits)⟩

theorem fetchConstantBare_ofNat
    (hFits : c.size < UInt64.size)
    (hBound : offset + 1 ≤ c.size) :
    c.fetchConstantBare
        (.ofNat offset) (.ofNat (offset + 1)) =
      some ((c.fetchConstant offset).map id .ofNat) := by
  unfold fetchConstantBare fetchConstant
  rw [toNat_ofNat_offset hFits hBound,
    toNat_ofNat_offset hFits (Nat.le_of_succ_le hBound)]
  cases hOperand : c.code[offset + 1]? with
  | none => rfl
  | some index =>
      dsimp only
      rw [(plus?_of_byte hFits hOperand).2]
      cases c.constant? index.toNat with
      | none => rfl
      | some value => rfl

/- Reading an instruction never traps. -/
theorem fetchBare_ofNat
    (hFits : c.size < UInt64.size)
    (hBound : offset ≤ c.size) :
    c.fetchBare (.ofNat offset) =
      some ((c.fetch offset).map id .ofNat) := by
  unfold fetchBare fetch
  rw [toNat_ofNat_offset hFits hBound]
  cases hByte : c.code[offset]? with
  | none => rfl
  | some byte =>
      rcases plus?_of_byte hFits hByte with ⟨hIn, hNext⟩
      dsimp only
      rw [hNext]
      cases hOp : Opcode.ofByte? byte with
      | none => rfl
      | some op =>
          cases op with
          | constant =>
              exact fetchConstantBare_ofNat hFits hIn
          | negate => rfl
          | binary operator => rfl
          | ret => rfl

end Chunk

end Abacus

------------------------------------------------------------
-- Bare Machines
------------------------------------------------------------

namespace Abacus

/- A machine that counts in words. -/
structure BareMachine where
  config : Config
  stack : BareStack
  offset : UInt64
  steps : UInt64

namespace BareMachine

/- The bare machine after a step. -/
inductive Step where
| next (b : BareMachine)
| returned (b : BareMachine)
| failed (cause : Cause) (b : BareMachine)

/- The cause to stop for, if the step limit is used up. -/
def refusal?
    (b : BareMachine) : Option Cause :=
  match b.config.stepLimit with
  | none => none
  | some limit =>
      if limit ≤ b.steps.toNat then
        some (.stepLimitExceeded limit)
      else
        none

/- How a step ends, by what its instruction gave. -/
def landed
    (b : BareMachine)
    (offset : UInt64) :
    Except Cause BareStack → Step
| .error cause => .failed cause { b with offset }
| .ok stack => .next { b with stack, offset }

/- Fetch and execute the instruction at the offset. -/
def dispatch
    (c : Chunk)
    (b : BareMachine) : Option Step := do
  match ← c.fetchBare b.offset with
  | (.error cause, offset) =>
      some (.failed cause { b with offset })
  | (.ok .ret, offset) => some (.returned { b with offset })
  | (.ok i, offset) => do
      let result ← i.executeBare b.stack
      some (b.landed offset result)

theorem dispatch_of_execute
    {c : Chunk}
    {b : BareMachine}
    {i : Instruction}
    {next : UInt64}
    {result : Except Cause BareStack}
    (hFetch : c.fetchBare b.offset = some (.ok i, next))
    (hGoesOn : i ≠ .ret)
    (hExecute : i.executeBare b.stack = some result) :
    b.dispatch c = some (b.landed next result) := by
  cases i with
  | ret => exact absurd rfl hGoesOn
  | _ => simp [dispatch, hFetch, hExecute]

/- Start one more instruction, if that is allowed. -/
def step
    (c : Chunk)
    (b : BareMachine) : Option Step :=
  match b.refusal? with
  | some cause => some (.failed cause b)
  | none => do
      let steps ← Word.plus? b.steps 1
      dispatch c { b with steps }

/-
  Take steps until one returns or fails, but no more than a
  number of them.
-/
def run
    (c : Chunk) :
    Nat → BareMachine →
      Option (BareMachine × Option Fault)
| 0, _ => none
| fuel + 1, b => do
    match ← b.step c with
    | .next b' => run c fuel b'
    | .returned b' => some (b', none)
    | .failed cause b' =>
        some
          ( b',
            some
              ⟨cause, b.offset.toNat,
                c.position? b.offset.toNat⟩ )

end BareMachine

end Abacus

------------------------------------------------------------
-- Steps Without Traps
------------------------------------------------------------

namespace Abacus

namespace Machine

/- A machine with its counters as words. -/
def bare
    (m : Machine) : BareMachine where
  config := m.config
  stack := m.stack.bare
  offset := .ofNat m.offset
  steps := .ofNat m.steps

/- The same for the machine after a step. -/
def Step.bare :
    Step → BareMachine.Step
| .next m => .next m.bare
| .returned m => .returned m.bare
| .failed cause m => .failed cause m.bare

variable {c : Chunk}
variable {m m' : Machine}

theorem bare_refusal?
    (hSteps : m.steps < UInt64.size) :
    m.bare.refusal? = m.refusal? := by
  unfold BareMachine.refusal? refusal?
  have hWord : m.bare.steps.toNat = m.steps :=
    UInt64.toNat_ofNat_of_lt' hSteps
  rw [hWord]
  rfl

/- A step that is allowed dispatches with one more step. -/
theorem bare_step_of_allowed
    (hSteps : m.steps + 1 < UInt64.size)
    (hAllowed : m.refusal? = none) :
    m.bare.step c =
      BareMachine.dispatch c (m.started m.offset).bare := by
  have hBare : m.bare.refusal? = none := by
    rw [bare_refusal? (Nat.lt_of_succ_lt hSteps)]
    exact hAllowed
  have hCount :
      Word.plus? m.bare.steps 1 =
        some (.ofNat (m.steps + 1)) :=
    Word.plus?_ofNat hSteps
  unfold BareMachine.step
  rw [hBare]
  dsimp only
  rw [hCount]
  rfl

/-
  A bare machine takes the steps of the machine, and no step
  within the code traps.
-/
theorem bare_step
    (hFits : c.size < UInt64.size)
    (hSteps : m.steps + 1 < UInt64.size)
    (hBound : m.offset ≤ c.size) :
    m.bare.step c = some (m.step c).bare := by
  have hFetchBare :
      c.fetchBare (m.started m.offset).bare.offset =
        some ((c.fetch m.offset).map id .ofNat) :=
    Chunk.fetchBare_ofNat hFits hBound
  have hCase := step_case c m
  generalize m.step c = result at hCase
  cases hCase with
  | refused hRefused =>
      unfold BareMachine.step
      rw [bare_refusal? (Nat.lt_of_succ_lt hSteps), hRefused]
      rfl
  | unread hAllowed hFetch =>
      rw [bare_step_of_allowed hSteps hAllowed,
        BareMachine.dispatch, hFetchBare, hFetch]
      rfl
  | returned hAllowed hFetch =>
      rw [bare_step_of_allowed hSteps hAllowed,
        BareMachine.dispatch, hFetchBare, hFetch]
      rfl
  | @stuck i cause next hAllowed hFetch hExecute =>
      have hBare := m.stack.bare_execute i
      have hGoesOn : i ≠ .ret := by
        rintro rfl
        cases hExecute
      rw [hExecute] at hBare
      rw [hFetch] at hFetchBare
      rw [bare_step_of_allowed hSteps hAllowed,
        BareMachine.dispatch_of_execute hFetchBare hGoesOn
          hBare]
      rfl
  | @executed i next stack hAllowed hFetch hGoesOn hExecute =>
      have hBare := m.stack.bare_execute i
      rw [hExecute] at hBare
      rw [hFetch] at hFetchBare
      rw [bare_step_of_allowed hSteps hAllowed,
        BareMachine.dispatch_of_execute hFetchBare hGoesOn
          hBare]
      rfl

end Machine

end Abacus

------------------------------------------------------------
-- Runs Without Traps
------------------------------------------------------------

namespace Abacus

namespace Machine

variable {σ : Type}
variable [Sink σ]
variable {c : Chunk}
variable {m m' : Machine}

/- A step moves on by at least one byte. -/
theorem steps_le_offset_of_next
    (hStep : m.step c = .next m')
    (hSteps : m.steps ≤ m.offset) :
    m'.steps ≤ m'.offset := by
  rcases (Passed.refl m').of_next hStep with
    ⟨i, hCompleted, hPassed⟩
  have hWidth := Instruction.length_le_span [i]
  rw [hPassed.steps_eq, hPassed.offset_eq]
  omega

/-
  A bare machine that starts like a machine ends like it.
  The induction is on the number of steps that are allowed;
  what carries it is that there are no more steps than bytes
  read, and no more bytes read than there are.
-/
theorem bare_run
    (t : Tracer σ)
    (hFits : c.size + 1 < UInt64.size)
    (hSteps : m.steps ≤ m.offset)
    (hBound : m.offset ≤ c.size)
    {fuel : Nat}
    (hFuel : c.size - m.offset < fuel) :
    m.bare.run c fuel =
      some ((run c t m).machine.bare, (run c t m).fault) := by
  induction fuel generalizing t m with
  | zero => omega
  | succ fuel ih =>
      have hOffset : m.bare.offset.toNat = m.offset :=
        UInt64.toNat_ofNat_of_lt' (by omega)
      have hBare : m.bare.step c = some (m.step c).bare :=
        bare_step (by omega) (by omega) hBound
      rw [BareMachine.run, hBare, Option.bind_eq_bind,
        Option.bind_some, hOffset]
      cases hStep : m.step c with
      | next m' =>
          have hForward := step_next_forward hStep
          rw [run_of_next hStep]
          exact ih _ (steps_le_offset_of_next hStep hSteps)
            (offset_le_of_next hStep) (by omega)
      | returned m' =>
          rw [run_of_returned hStep]
          rfl
      | failed cause m' =>
          rw [run_of_failed hStep]
          rfl

end Machine

end Abacus
