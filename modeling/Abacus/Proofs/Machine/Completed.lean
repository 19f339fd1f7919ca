import Abacus.Proofs.Machine.History
import Abacus.Proofs.Program.Values

/-
  What a run completes.

  A step completes its instruction, or it fails and leaves
  the stack alone. So the stack of a run is at any time the
  one that the completed instructions leave, the offset is
  behind their bytes, and the number of steps is theirs. How
  many values they leave does not depend on the values.

  Main declarations:
    * `Opcode.resize` and `Instruction.size_execute`
    * `Instruction.executeAll`
    * `Instruction.size_of_executeAll`
    * `Machine.completed`
    * `Machine.passed_of_getElem?_history`
    * `Machine.executeAll_completed`
    * `Machine.exists_failed_step`
-/

------------------------------------------------------------
-- Sizes Of Stacks
------------------------------------------------------------

namespace Abacus

namespace Opcode

/- What an operation does to a number of values. -/
def resize :
    Opcode → Nat → Except Cause Nat
| .constant, size =>
    if size < Stack.capacity then
      .ok (size + 1)
    else
      .error (.stackOverflow Stack.capacity)
| .negate, size =>
    if 0 < size then
      .ok size
    else
      .error .stackUnderflow
| .binary _, size =>
    if 2 ≤ size then
      .ok (size - 1)
    else
      .error .stackUnderflow
| .ret, size => .ok size

/- Whether an operation makes one value of two. -/
def isBinary :
    Opcode → Bool
| .binary _ => true
| _ => false

/-
  A constant is one value more, a binary operation one value
  less, and nothing else changes their number.
-/
theorem resize_balance
    {op : Opcode}
    {size size' : Nat}
    (hResize : op.resize size = .ok size') :
    size' + [op].countP isBinary =
      size + [op].count .constant := by
  cases op with
  | constant =>
      simp only [resize] at hResize
      split at hResize
      · cases hResize
        simp [isBinary]
      · cases hResize
  | negate =>
      simp only [resize] at hResize
      split at hResize
      · cases hResize
        simp [isBinary]
      · cases hResize
  | binary operator =>
      simp only [resize] at hResize
      split at hResize
      · cases hResize
        change size - 1 + 1 = size
        omega
      · cases hResize
  | ret =>
      cases hResize
      simp [isBinary]

end Opcode

namespace Instruction

/-
  What an instruction does to the size of a stack depends on
  its operation and on the size alone.
-/
theorem size_execute
    (i : Instruction)
    (s : Stack) :
    (i.execute s).map Stack.size =
      i.opcode.resize s.size := by
  have hSize :
      (i.execute s).map Stack.size =
        ((i.execute s).map Stack.values).map
          List.length := by
    cases i.execute s <;> simp [Except.map]
  rw [hSize, ← Stack.length_values]
  cases i with
  | push value =>
      simp only [execute, Stack.push_values, opcode,
        Opcode.resize]
      split <;> rfl
  | negate =>
      simp only [execute, Stack.negate_values, opcode,
        Opcode.resize]
      cases s.values <;> simp [Except.map]
  | binary operator =>
      simp only [execute, Stack.combine_values, opcode,
        Opcode.resize]
      rcases s.values with _ | ⟨b, _ | ⟨a, rest⟩⟩ <;>
        simp [Except.map]
  | ret => rfl

/- The size of a stack after an instruction. -/
theorem resize_of_execute_ok
    {i : Instruction}
    {s t : Stack}
    (hExecute : i.execute s = .ok t) :
    i.opcode.resize s.size = .ok t.size := by
  rw [← size_execute, hExecute]
  rfl

/- An instruction fails as its operation does. -/
theorem resize_of_execute_error
    {i : Instruction}
    {s : Stack}
    {cause : Cause}
    (hExecute : i.execute s = .error cause) :
    i.opcode.resize s.size = .error cause := by
  rw [← size_execute, hExecute]
  rfl

end Instruction

end Abacus

------------------------------------------------------------
-- Several Instructions
------------------------------------------------------------

namespace Abacus

namespace Instruction

/- The number of bytes of several instructions. -/
def span :
    List Instruction → Nat
| [] => 0
| i :: is => i.width + span is

/- Execute instructions one after the other. -/
def executeAll :
    List Instruction → Stack → Except Cause Stack
| [], s => .ok s
| i :: is, s =>
    match i.execute s with
    | .ok t => executeAll is t
    | .error cause => .error cause

/- The first instruction hands its stack to the others. -/
theorem executeAll_cons_of_ok
    {i : Instruction}
    {s t : Stack}
    (hExecute : i.execute s = .ok t)
    (is : List Instruction) :
    executeAll (i :: is) s = executeAll is t := by
  simp [executeAll, hExecute]

/- Every instruction has a byte. -/
theorem length_le_span
    (is : List Instruction) :
    is.length ≤ span is := by
  induction is with
  | nil => exact Nat.le_refl 0
  | cons i is ih =>
      have hWidth := i.width_pos
      simp only [List.length_cons, span]
      omega

/-
  The size of the stack after some instructions counts the
  constants among them, less the binary operations.
-/
theorem size_of_executeAll
    {is : List Instruction}
    {s t : Stack}
    (hExecute : executeAll is s = .ok t) :
    t.size + (is.map opcode).countP Opcode.isBinary =
      s.size + (is.map opcode).count .constant := by
  induction is generalizing s with
  | nil =>
      cases hExecute
      rfl
  | cons i is ih =>
      cases hFirst : i.execute s with
      | error cause => simp [executeAll, hFirst] at hExecute
      | ok next =>
          rw [executeAll_cons_of_ok hFirst] at hExecute
          have hRest := ih hExecute
          have hBalance :=
            Opcode.resize_balance
              (resize_of_execute_ok hFirst)
          rw [List.map_cons, ← List.singleton_append,
            List.countP_append, List.count_append]
          omega

/- Instructions leave at most one value each. -/
theorem size_le_of_executeAll
    {is : List Instruction}
    {s t : Stack}
    (hExecute : executeAll is s = .ok t) :
    t.size ≤ s.size + is.length := by
  have hSize := size_of_executeAll hExecute
  have hCount :
      (is.map opcode).count .constant ≤ is.length := by
    rw [← List.length_map (f := opcode)]
    exact List.count_le_length
  omega

end Instruction

end Abacus

------------------------------------------------------------
-- Completed Instructions
------------------------------------------------------------

namespace Abacus

namespace Machine

variable {c : Chunk}
variable {m m' s : Machine}

/- The instruction that a step completes. -/
def completes?
    (c : Chunk)
    (m : Machine) : Option Instruction :=
  match m.step c with
  | .next _ => (c.fetch m.offset).1.toOption
  | .returned _ => (c.fetch m.offset).1.toOption
  | .failed _ _ => none

/- The instructions that a run completes. -/
def completed
    (c : Chunk)
    (m : Machine) : List Instruction :=
  (m.history c).filterMap (completes? c)

/- A step that goes on completes the first of them. -/
theorem completed_of_next
    {i : Instruction}
    {next : Nat}
    (hStep : m.step c = .next m')
    (hFetch : c.fetch m.offset = (.ok i, next)) :
    m.completed c = i :: m'.completed c := by
  have hHere : m.completes? c = some i := by
    simp [completes?, hStep, hFetch, Except.toOption]
  rw [completed, history_of_next hStep,
    List.filterMap_cons_some hHere]
  rfl

/- A step that returns completes the last one. -/
theorem completed_of_returned
    (hStep : m.step c = .returned m') :
    m.completed c = [.ret] := by
  have hCase := step_case c m
  rw [hStep] at hCase
  cases hCase with
  | returned hAllowed hFetch =>
      have hHere : m.completes? c = some .ret := by
        simp [completes?, hStep, hFetch, Except.toOption]
      rw [completed, history_of_last (by simp [hStep]),
        List.filterMap_cons_some hHere]
      rfl

/- A step that fails completes nothing. -/
theorem completed_of_failed
    {cause : Cause}
    (hStep : m.step c = .failed cause m') :
    m.completed c = [] := by
  have hHere : m.completes? c = none := by
    simp [completes?, hStep]
  rw [completed, history_of_last (by simp [hStep]),
    List.filterMap_cons_none hHere]
  rfl

------------------------------------------------------------
-- Steps And Completed Instructions
------------------------------------------------------------

/-
  A machine that came from another one by completing some
  instructions, and by nothing else.
-/
structure Passed
    (m : Machine)
    (is : List Instruction)
    (s : Machine) : Prop where
  config_eq : s.config = m.config
  offset_eq : s.offset = m.offset + Instruction.span is
  steps_eq : s.steps = m.steps + is.length
  stack_eq :
    Instruction.executeAll is m.stack = .ok s.stack

theorem Passed.refl
    (m : Machine) :
    m.Passed [] m where
  config_eq := rfl
  offset_eq := rfl
  steps_eq := rfl
  stack_eq := rfl

/- A step that goes on passes one more instruction. -/
theorem Passed.of_next
    (hStep : m.step c = .next m')
    {is : List Instruction}
    (hRest : m'.Passed is s) :
    ∃ i,
      m.completed c = i :: m'.completed c ∧
        m.Passed (i :: is) s := by
  have hCase := step_case c m
  rw [hStep] at hCase
  cases hCase with
  | @executed i next stack hAllowed hFetch hGoesOn hExecute =>
      have hOffset := hRest.offset_eq
      have hSteps := hRest.steps_eq
      have hWidth := (Chunk.fetch_ok hFetch).1
      simp only [started] at hOffset hSteps
      refine ⟨i, completed_of_next hStep hFetch,
        hRest.config_eq, ?_, ?_, ?_⟩
      · rw [hOffset, hWidth, Instruction.span, Nat.add_assoc]
      · rw [hSteps, List.length_cons]
        omega
      · rw [Instruction.executeAll_cons_of_ok hExecute]
        exact hRest.stack_eq

/-
  Each step of a run begins where the instructions before it
  end, with their stack and their number as its own. The
  induction is on the number of the step: each step that
  goes on accounts for one completed instruction.
-/
theorem passed_of_getElem?_history
    {k : Nat}
    (hAt : (m.history c)[k]? = some s) :
    ((m.completed c).take k).length = k ∧
      m.Passed ((m.completed c).take k) s := by
  induction k generalizing m with
  | zero =>
      rcases history_eq_cons c m with ⟨rest, hCons⟩
      rw [hCons] at hAt
      cases hAt
      exact ⟨rfl, Passed.refl _⟩
  | succ k ih =>
      cases hStep : m.step c with
      | next m' =>
          rw [history_of_next hStep,
            List.getElem?_cons_succ] at hAt
          rcases ih hAt with ⟨hLength, hPassed⟩
          rcases hPassed.of_next hStep with
            ⟨i, hCompleted, hMore⟩
          rw [hCompleted, List.take_succ_cons]
          exact ⟨congrArg Nat.succ hLength, hMore⟩
      | _ =>
          rw [history_of_last (by simp [hStep])] at hAt
          cases hAt

/- Every step of a run but the last one goes on. -/
theorem exists_next_of_mem_dropLast
    (hMem : s ∈ (m.history c).dropLast) :
    ∃ s', s.step c = .next s' := by
  induction m using induction_forward (c := c) with
  | step m ih =>
      cases hStep : m.step c with
      | next m' =>
          rcases history_eq_cons c m' with ⟨rest, hCons⟩
          rw [history_of_next hStep, hCons,
            List.dropLast_cons_cons, ← hCons,
            List.mem_cons] at hMem
          rcases hMem with hHere | hThere
          · rw [hHere]
            exact ⟨m', hStep⟩
          · exact ih m' hStep hThere
      | _ =>
          rw [history_of_last (by simp [hStep])] at hMem
          cases hMem

/- A step that goes on stays within the code. -/
theorem offset_le_of_next
    (hStep : m.step c = .next m') :
    m'.offset ≤ c.size := by
  have hCase := step_case c m
  rw [hStep] at hCase
  cases hCase with
  | executed hAllowed hFetch hGoesOn hExecute =>
      exact (Chunk.fetch_ok hFetch).2

/- So does a run. -/
theorem offset_le_of_mem_history
    (hBound : m.offset ≤ c.size)
    (hMem : s ∈ m.history c) :
    s.offset ≤ c.size := by
  refine holds_of_mem_history
    (P := fun s => s.offset ≤ c.size) ?_ hBound hMem
  intro s s' hStep _
  exact offset_le_of_next hStep

------------------------------------------------------------
-- Runs And Completed Instructions
------------------------------------------------------------

variable {σ : Type}
variable [Sink σ]

/- A step that does not go on leaves the stack alone. -/
theorem stack_of_last
    (hLast :
      m.step c = .returned m' ∨
        ∃ cause, m.step c = .failed cause m') :
    m'.stack = m.stack := by
  have hCase := step_case c m
  rcases hLast with hReturned | ⟨cause, hFailed⟩
  · rw [hReturned] at hCase
    cases hCase
    rfl
  · rw [hFailed] at hCase
    cases hCase <;> rfl

/-
  However a run ends, it leaves the stack that the completed
  instructions leave.
-/
theorem executeAll_completed
    (c : Chunk)
    (t : Tracer σ)
    (m : Machine) :
    Instruction.executeAll (m.completed c) m.stack =
      .ok (run c t m).machine.stack := by
  induction m using induction_forward (c := c)
    generalizing t with
  | step m ih =>
      cases hStep : m.step c with
      | next m' =>
          have hCase := step_case c m
          rw [hStep] at hCase
          cases hCase with
          | executed hAllowed hFetch hGoesOn hExecute =>
              rw [run_of_next hStep,
                completed_of_next hStep hFetch,
                Instruction.executeAll_cons_of_ok hExecute]
              exact ih _ hStep _
      | returned m' =>
          rw [run_of_returned hStep,
            completed_of_returned hStep,
            stack_of_last (.inl hStep)]
          rfl
      | failed cause m' =>
          rw [run_of_failed hStep,
            completed_of_failed hStep,
            stack_of_last (.inr ⟨cause, hStep⟩)]
          rfl

/-
  A run that fails completes all its steps but the last one,
  and its fault is the one that the last step meets.
-/
theorem exists_failed_step
    {t : Tracer σ}
    {fault : Fault}
    (hFault : (run c t m).fault = some fault) :
    ∃ last,
      (m.history c)[(m.completed c).length]? = some last ∧
        m.Passed (m.completed c) last ∧
        last.step c =
          .failed fault.cause (run c t m).machine ∧
        fault.offset = last.offset ∧
        fault.position = c.position? last.offset := by
  induction m using induction_forward (c := c)
    generalizing t with
  | step m ih =>
      cases hStep : m.step c with
      | next m' =>
          rw [run_of_next hStep] at hFault ⊢
          rcases ih m' hStep hFault with
            ⟨last, hAt, hPassed, hLast⟩
          rcases hPassed.of_next hStep with
            ⟨i, hCompleted, hMore⟩
          rw [history_of_next hStep, hCompleted]
          exact ⟨last, hAt, hMore, hLast⟩
      | returned m' =>
          rw [run_of_returned hStep] at hFault
          cases hFault
      | failed cause m' =>
          rw [run_of_failed hStep] at hFault ⊢
          rw [completed_of_failed hStep,
            history_of_last (by simp [hStep])]
          cases hFault
          exact ⟨m, rfl, Passed.refl m, hStep, rfl, rfl⟩

/- The stack of an interpretation. -/
theorem executeAll_completed_reset
    (m : Machine)
    (c : Chunk)
    (sink : σ) :
    Instruction.executeAll (m.reset.completed c)
        m.reset.stack =
      .ok (m.interpret c sink).machine.stack := by
  rw [interpret_machine]
  exact executeAll_completed c _ m.reset

end Machine

end Abacus
