import Abacus.Machine.Run

/-
  The steps of a machine, case by case.

  A step is refused by the limit, or it fails to read its
  instruction, or it returns, or it executes an instruction
  that fails or goes on.

  Main declarations:
    * `Machine.started`
    * `Machine.StepCase`
    * `Machine.step_case`
    * `Machine.exists_instruction_of_completed`
-/

------------------------------------------------------------
-- Cases Of A Step
------------------------------------------------------------

namespace Abacus

namespace Machine

variable {c : Chunk}
variable {m : Machine}
variable {next : Nat}

/- The machine after reading one more instruction. -/
def started
    (m : Machine)
    (offset : Nat) : Machine :=
  { m with
    offset := offset
    steps := m.steps + 1 }

theorem step_of_refused
    {cause : Cause}
    (hRefused : m.refusal? = some cause) :
    m.step c = .failed cause m := by
  simp [step, hRefused]

theorem step_of_fetch_error
    {cause : Cause}
    (hAllowed : m.refusal? = none)
    (hFetch : c.fetch m.offset = (.error cause, next)) :
    m.step c = .failed cause (m.started next) := by
  simp [step, hAllowed, dispatch, hFetch, started]

theorem step_of_fetch_ret
    (hAllowed : m.refusal? = none)
    (hFetch : c.fetch m.offset = (.ok .ret, next)) :
    m.step c = .returned (m.started next) := by
  simp [step, hAllowed, dispatch, hFetch, started]

theorem step_of_execute_error
    {i : Instruction}
    {cause : Cause}
    (hAllowed : m.refusal? = none)
    (hFetch : c.fetch m.offset = (.ok i, next))
    (hExecute : i.execute m.stack = .error cause) :
    m.step c = .failed cause (m.started next) := by
  cases i with
  | ret => cases hExecute
  | _ =>
      simp [step, hAllowed, dispatch, hFetch, hExecute,
        started]

theorem step_of_execute_ok
    {i : Instruction}
    {stack : Stack}
    (hAllowed : m.refusal? = none)
    (hFetch : c.fetch m.offset = (.ok i, next))
    (hGoesOn : i ≠ .ret)
    (hExecute : i.execute m.stack = .ok stack) :
    m.step c =
      .next { m.started next with stack := stack } := by
  cases i with
  | ret => exact absurd rfl hGoesOn
  | _ =>
      simp [step, hAllowed, dispatch, hFetch, hExecute,
        started]

------------------------------------------------------------
-- All That A Step Can Do
------------------------------------------------------------

/- The ways in which a step can end. -/
inductive StepCase
    (c : Chunk)
    (m : Machine) : Step → Prop
| refused
    {cause : Cause}
    (hRefused : m.refusal? = some cause) :
    StepCase c m (.failed cause m)
| unread
    {cause : Cause}
    {next : Nat}
    (hAllowed : m.refusal? = none)
    (hFetch : c.fetch m.offset = (.error cause, next)) :
    StepCase c m (.failed cause (m.started next))
| stuck
    {i : Instruction}
    {cause : Cause}
    {next : Nat}
    (hAllowed : m.refusal? = none)
    (hFetch : c.fetch m.offset = (.ok i, next))
    (hExecute : i.execute m.stack = .error cause) :
    StepCase c m (.failed cause (m.started next))
| returned
    {next : Nat}
    (hAllowed : m.refusal? = none)
    (hFetch : c.fetch m.offset = (.ok .ret, next)) :
    StepCase c m (.returned (m.started next))
| executed
    {i : Instruction}
    {next : Nat}
    {stack : Stack}
    (hAllowed : m.refusal? = none)
    (hFetch : c.fetch m.offset = (.ok i, next))
    (hGoesOn : i ≠ .ret)
    (hExecute : i.execute m.stack = .ok stack) :
    StepCase c m
      (.next { m.started next with stack := stack })

theorem step_case
    (c : Chunk)
    (m : Machine) :
    m.StepCase c (m.step c) := by
  cases hRefusal : m.refusal? with
  | some cause =>
      rw [step_of_refused hRefusal]
      exact .refused hRefusal
  | none =>
      rcases hFetch : c.fetch m.offset with ⟨fetched, next⟩
      cases fetched with
      | error cause =>
          rw [step_of_fetch_error hRefusal hFetch]
          exact .unread hRefusal hFetch
      | ok i =>
          by_cases hRet : i = .ret
          · subst hRet
            rw [step_of_fetch_ret hRefusal hFetch]
            exact .returned hRefusal hFetch
          · cases hExecute : i.execute m.stack with
            | error cause =>
                rw [step_of_execute_error hRefusal hFetch
                  hExecute]
                exact .stuck hRefusal hFetch hExecute
            | ok stack =>
                rw [step_of_execute_ok hRefusal hFetch hRet
                  hExecute]
                exact .executed hRefusal hFetch hRet hExecute

/- Only a step limit that is used up refuses a step. -/
theorem exists_limit_of_refused
    {cause : Cause}
    (hRefused : m.refusal? = some cause) :
    ∃ limit,
      m.config.stepLimit = some limit ∧
        limit ≤ m.steps ∧
        cause = .stepLimitExceeded limit := by
  unfold refusal? at hRefused
  split at hRefused
  · cases hRefused
  · rename_i limit hLimit
    split at hRefused
    · rename_i hSpent
      cases hRefused
      exact ⟨limit, hLimit, hSpent, rfl⟩
    · cases hRefused

/-
  A step that completes, by going on or by returning,
  executed the instruction that it fetched.
-/
theorem exists_instruction_of_completed
    {m' : Machine}
    (h : m.step c = .next m' ∨ m.step c = .returned m') :
    ∃ i,
      c.fetch m.offset = (.ok i, m'.offset) ∧
        i.execute m.stack = .ok m'.stack := by
  have hCase := step_case c m
  rcases h with hNext | hReturned
  · rw [hNext] at hCase
    cases hCase with
    | executed hAllowed hFetch hGoesOn hExecute =>
        exact ⟨_, hFetch, hExecute⟩
  · rw [hReturned] at hCase
    cases hCase with
    | returned hAllowed hFetch => exact ⟨_, hFetch, rfl⟩

end Machine

end Abacus
