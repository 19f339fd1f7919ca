import Abacus.Config
import Abacus.Instruction

/-
  The machine.

  A machine has settings, a stack, the offset of the next
  byte to read, and a count of the instructions it started.
  A step starts one instruction, unless the step limit is
  used up. An instruction that fails leaves the stack alone.

  Key definitions include:
    * `Abacus.Machine`
    * `Abacus.Machine.Step`
    * `Abacus.Machine.step`
-/

------------------------------------------------------------
-- Machines
------------------------------------------------------------

namespace Abacus

/-
  The state of a machine. `fault` is that of the last run.
-/
structure Machine where
  config : Config
  stack : Stack
  offset : Nat
  steps : Nat
  fault : Option Fault

namespace Machine

/- A machine that has not run yet. -/
def new
    (config : Config) : Machine where
  config := config
  stack := Stack.empty
  offset := 0
  steps := 0
  fault := none

/- Make a machine ready for a run. -/
def reset
    (m : Machine) : Machine where
  config := m.config
  stack := m.stack.reset
  offset := 0
  steps := 0
  fault := none

end Machine

end Abacus

------------------------------------------------------------
-- Steps
------------------------------------------------------------

namespace Abacus

namespace Machine

/- The machine after a step, and how the run goes on. -/
inductive Step where
| next (m : Machine)
| returned (m : Machine)
| failed (cause : Cause) (m : Machine)

/- The cause to stop for, if the step limit is used up. -/
def refusal?
    (m : Machine) : Option Cause :=
  match m.config.stepLimit with
  | none => none
  | some limit =>
      if limit ≤ m.steps then
        some (.stepLimitExceeded limit)
      else
        none

/- Fetch and execute the instruction at the offset. -/
def dispatch
    (c : Chunk)
    (m : Machine) : Step :=
  match c.fetch m.offset with
  | (.error cause, offset) => .failed cause { m with offset }
  | (.ok .ret, offset) => .returned { m with offset }
  | (.ok i, offset) =>
      match i.execute m.stack with
      | .error cause => .failed cause { m with offset }
      | .ok stack => .next { m with stack, offset }

/- Start one more instruction, if that is allowed. -/
def step
    (c : Chunk)
    (m : Machine) : Step :=
  match m.refusal? with
  | some cause => .failed cause m
  | none => dispatch c { m with steps := m.steps + 1 }

/- A step that goes on moves forward within the code. -/
theorem dispatch_next_forward
    {c : Chunk}
    {m m' : Machine}
    (h : dispatch c m = .next m') :
    m.offset < c.size ∧ m.offset < m'.offset := by
  unfold dispatch at h
  split at h
  · cases h
  · cases h
  · rename_i i next _ hFetch
    have hNext := Chunk.fetch_ok hFetch
    have hWidth := i.width_pos
    split at h
    · cases h
    · cases h
      dsimp only
      omega

theorem step_next_forward
    {c : Chunk}
    {m m' : Machine}
    (h : step c m = .next m') :
    m.offset < c.size ∧ m.offset < m'.offset := by
  unfold step at h
  split at h
  · cases h
  · have hForward := dispatch_next_forward h
    exact hForward

end Machine

end Abacus
