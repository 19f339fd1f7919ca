import Abacus.Proofs.Machine.Completed
import Abacus.Sink.Bytes

/-
  Values and positions never steer a run.

  Chunks with the same code and with pools of one size run
  in step with each other: their machines are at the same
  offset, after the same number of steps, with as many
  values on the stack. No division, no infinity and no NaN
  can make one of them stop earlier.

  Main declarations:
    * `Chunk.SameShape` and `Chunk.SameShape.fetch_eq`
    * `Machine.Alike`
    * `Machine.step_alike`
    * `Machine.run_alike`
    * `Machine.completed_alike`
    * `Machine.interpret_ignores_values`
-/

------------------------------------------------------------
-- Chunks Of One Shape
------------------------------------------------------------

namespace Abacus

namespace Chunk

/-
  The code of two chunks is the same, and so is the size of
  their pools. Constants and positions may differ.
-/
structure SameShape
    (c d : Chunk) : Prop where
  code_eq : c.code = d.code
  pool_eq : c.constants.size = d.constants.size

namespace SameShape

variable {c d : Chunk}

/- The constant instructions at an offset are alike. -/
theorem fetchConstant_eq
    (hShape : c.SameShape d)
    (offset : Nat) :
    (c.fetchConstant offset).1.map Instruction.opcode =
        (d.fetchConstant offset).1.map Instruction.opcode ∧
      (c.fetchConstant offset).2 =
        (d.fetchConstant offset).2 := by
  unfold fetchConstant constant?
  rw [hShape.code_eq]
  cases d.code[offset + 1]? with
  | none => exact ⟨rfl, rfl⟩
  | some index =>
      have hPool := hShape.pool_eq
      by_cases hIndex : index.toNat < d.constants.size
      · have hIndex' : index.toNat < c.constants.size := by
          rw [hPool]
          exact hIndex
        simp [hIndex, hIndex', Except.map,
          Instruction.opcode]
      · have hNone : d.constants[index.toNat]? = none := by
          simpa using hIndex
        have hNone' : c.constants[index.toNat]? = none := by
          simpa [hPool] using hIndex
        simp [hNone, hNone', hPool]

/-
  At each offset both chunks have the same operation, or the
  same cause not to have one.
-/
theorem fetch_eq
    (hShape : c.SameShape d)
    (offset : Nat) :
    (c.fetch offset).1.map Instruction.opcode =
        (d.fetch offset).1.map Instruction.opcode ∧
      (c.fetch offset).2 = (d.fetch offset).2 := by
  unfold fetch
  rw [hShape.code_eq]
  cases d.code[offset]? with
  | none => exact ⟨rfl, rfl⟩
  | some byte =>
      dsimp only
      cases Opcode.ofByte? byte with
      | none => exact ⟨rfl, rfl⟩
      | some op =>
          cases op with
          | constant => exact hShape.fetchConstant_eq offset
          | _ => exact ⟨rfl, rfl⟩

end SameShape

end Chunk

end Abacus

------------------------------------------------------------
-- Machines That Run In Step
------------------------------------------------------------

namespace Abacus

namespace Fault

/- What a fault says apart from its source position. -/
def site
    (f : Fault) : Cause × Nat :=
  (f.cause, f.offset)

end Fault

namespace Machine

/- Machines that differ at most in their values. -/
structure Alike
    (m n : Machine) : Prop where
  limit_eq : m.config.stepLimit = n.config.stepLimit
  offset_eq : m.offset = n.offset
  steps_eq : m.steps = n.steps
  size_eq : m.stack.size = n.stack.size

/- Steps that go on or stop in the same way. -/
inductive Step.Alike :
    Step → Step → Prop
| next
    {m n : Machine}
    (hAlike : m.Alike n) :
    Step.Alike (.next m) (.next n)
| returned
    {m n : Machine}
    (hAlike : m.Alike n) :
    Step.Alike (.returned m) (.returned n)
| failed
    {m n : Machine}
    (cause : Cause)
    (hAlike : m.Alike n) :
    Step.Alike (.failed cause m) (.failed cause n)

variable {c d : Chunk}
variable {m n : Machine}

/- Reset machines are alike if their limits are. -/
theorem alike_reset
    (hLimit : m.config.stepLimit = n.config.stepLimit) :
    m.reset.Alike n.reset where
  limit_eq := hLimit
  offset_eq := rfl
  steps_eq := rfl
  size_eq := rfl

/- Both machines may take a step, or neither may. -/
theorem Alike.refusal?_eq
    (hAlike : m.Alike n) :
    m.refusal? = n.refusal? := by
  unfold refusal?
  rw [hAlike.limit_eq, hAlike.steps_eq]

/- Reading an instruction keeps machines alike. -/
theorem Alike.started
    (hAlike : m.Alike n)
    (next : Nat) :
    (m.started next).Alike (n.started next) where
  limit_eq := hAlike.limit_eq
  offset_eq := rfl
  steps_eq := congrArg (· + 1) hAlike.steps_eq
  size_eq := hAlike.size_eq

/-
  Instructions with one operation do the same to the size of
  both stacks, or fail for the same cause.
-/
theorem Alike.size_execute_eq
    (hAlike : m.Alike n)
    {i j : Instruction}
    (hOpcode : i.opcode = j.opcode) :
    (i.execute m.stack).map Stack.size =
      (j.execute n.stack).map Stack.size := by
  rw [Instruction.size_execute, Instruction.size_execute,
    hOpcode, hAlike.size_eq]

/- An instruction returns if its operation is a return. -/
theorem eq_ret_iff_of_opcode_eq
    {i j : Instruction}
    (hOpcode : i.opcode = j.opcode) :
    i = .ret ↔ j = .ret := by
  cases i <;> cases j <;>
    simp_all [Instruction.opcode]

/-
  Steps that fetched instructions with one operation: what
  both do is a matter of the size of the stack.
-/
theorem step_alike_of_fetch_ok
    (hAlike : m.Alike n)
    (hLeft : m.refusal? = none)
    (hRight : n.refusal? = none)
    {i j : Instruction}
    {next : Nat}
    (hFetch : c.fetch m.offset = (.ok i, next))
    (hFetch' : d.fetch n.offset = (.ok j, next))
    (hOpcode : i.opcode = j.opcode) :
    Step.Alike (m.step c) (n.step d) := by
  have hStarted := hAlike.started next
  have hSizes := hAlike.size_execute_eq hOpcode
  have hRets := eq_ret_iff_of_opcode_eq hOpcode
  by_cases hRet : i = .ret
  · have hRet' := hRets.mp hRet
    subst hRet hRet'
    rw [step_of_fetch_ret hLeft hFetch,
      step_of_fetch_ret hRight hFetch']
    exact .returned hStarted
  · have hRet' := mt hRets.mpr hRet
    cases hFirst : i.execute m.stack with
    | error cause =>
        cases hSecond : j.execute n.stack with
        | ok t =>
            rw [hFirst, hSecond] at hSizes
            cases hSizes
        | error cause' =>
            rw [hFirst, hSecond] at hSizes
            cases hSizes
            rw [step_of_execute_error hLeft hFetch hFirst,
              step_of_execute_error hRight hFetch' hSecond]
            exact .failed cause hStarted
    | ok s =>
        cases hSecond : j.execute n.stack with
        | error cause =>
            rw [hFirst, hSecond] at hSizes
            cases hSizes
        | ok t =>
            rw [hFirst, hSecond] at hSizes
            have hSize := Except.ok.inj hSizes
            rw [step_of_execute_ok hLeft hFetch hRet hFirst,
              step_of_execute_ok hRight hFetch' hRet'
                hSecond]
            exact .next { hStarted with size_eq := hSize }

/-
  Machines that are alike take steps that are alike. The
  cases are those of a step: the limit, a fault in reading,
  and the instruction that is executed.
-/
theorem step_alike
    (hShape : c.SameShape d)
    (hAlike : m.Alike n) :
    Step.Alike (m.step c) (n.step d) := by
  have hRefusal := hAlike.refusal?_eq
  cases hLeft : m.refusal? with
  | some cause =>
      have hRight := hRefusal.symm.trans hLeft
      rw [step_of_refused hLeft, step_of_refused hRight]
      exact .failed cause hAlike
  | none =>
      have hRight := hRefusal.symm.trans hLeft
      have hBoth := hShape.fetch_eq m.offset
      rcases hFetch : c.fetch m.offset with ⟨first, next⟩
      rcases hFetch' : d.fetch m.offset with
        ⟨second, next'⟩
      rw [hFetch, hFetch'] at hBoth
      rcases hBoth with ⟨hOpcode, hNext⟩
      dsimp only at hOpcode hNext
      subst hNext
      rw [hAlike.offset_eq] at hFetch'
      cases first with
      | error cause =>
          cases second with
          | ok j => cases hOpcode
          | error cause' =>
              cases hOpcode
              rw [step_of_fetch_error hLeft hFetch,
                step_of_fetch_error hRight hFetch']
              exact .failed cause (hAlike.started next)
      | ok i =>
          cases second with
          | error cause => cases hOpcode
          | ok j =>
              exact step_alike_of_fetch_ok hAlike hLeft
                hRight hFetch hFetch'
                (Except.ok.inj hOpcode)

------------------------------------------------------------
-- Runs That Go In Step
------------------------------------------------------------

variable {σ τ : Type}
variable [Sink σ]
variable [Sink τ]

/-
  Runs of machines that are alike end alike, with the same
  cause at the same offset if they fail.
-/
theorem run_alike
    (hShape : c.SameShape d)
    (hAlike : m.Alike n)
    (t : Tracer σ)
    (u : Tracer τ) :
    (run c t m).machine.Alike (run d u n).machine ∧
      (run c t m).fault.map Fault.site =
        (run d u n).fault.map Fault.site := by
  induction m using induction_forward (c := c)
    generalizing n t u with
  | step m ih =>
      have hSteps := step_alike hShape hAlike
      cases hLeft : m.step c <;>
        cases hRight : n.step d <;>
        rw [hLeft, hRight] at hSteps <;>
        cases hSteps
      case next.next m' n' hNext =>
        rw [run_of_next hLeft, run_of_next hRight]
        exact ih m' hLeft hNext _ _
      case returned.returned m' n' hEnd =>
        rw [run_of_returned hLeft, run_of_returned hRight]
        exact ⟨hEnd, rfl⟩
      case failed.failed cause m' n' hEnd =>
        rw [run_of_failed hLeft, run_of_failed hRight]
        refine ⟨hEnd, ?_⟩
        simp [Fault.site, hAlike.offset_eq]

/- They complete the same operations. -/
theorem completed_alike
    (hShape : c.SameShape d)
    (hAlike : m.Alike n) :
    (m.completed c).map Instruction.opcode =
      (n.completed d).map Instruction.opcode := by
  induction m using induction_forward (c := c)
    generalizing n with
  | step m ih =>
      have hSteps := step_alike hShape hAlike
      cases hLeft : m.step c <;>
        cases hRight : n.step d <;>
        rw [hLeft, hRight] at hSteps <;>
        cases hSteps
      case next.next m' n' hNext =>
        rcases exists_instruction_of_completed (.inl hLeft)
          with ⟨i, hFetch, _⟩
        rcases exists_instruction_of_completed (.inl hRight)
          with ⟨j, hFetch', _⟩
        have hBoth := (hShape.fetch_eq m.offset).1
        rw [hFetch, hAlike.offset_eq, hFetch'] at hBoth
        rw [completed_of_next hLeft hFetch,
          completed_of_next hRight hFetch', List.map_cons,
          List.map_cons, ih m' hLeft hNext]
        exact congrArg (· :: _) (Except.ok.inj hBoth)
      case returned.returned m' n' hEnd =>
        rw [completed_of_returned hLeft,
          completed_of_returned hRight]
      case failed.failed cause m' n' hEnd =>
        rw [completed_of_failed hLeft,
          completed_of_failed hRight]

end Machine

end Abacus

------------------------------------------------------------
-- Interpretation
------------------------------------------------------------

namespace Abacus

namespace Machine

variable {σ τ : Type}
variable [Sink σ]
variable [Sink τ]

/-
  Two runs under one step limit, of chunks with the same
  code and as many constants, end with the same verdict, the
  same cause at the same offset, the same number of steps
  and as many values, whatever the constants and positions
  are. The number of values is that of the constants that
  were completed, less the binary operations.
-/
theorem interpret_ignores_values
    (m n : Machine)
    (hLimit : m.config.stepLimit = n.config.stepLimit)
    (c d : Chunk)
    (hCode : c.code = d.code)
    (hPool : c.constants.size = d.constants.size)
    (sink : σ)
    (other : τ) :
    (m.interpret c sink).verdict =
        (n.interpret d other).verdict ∧
      (m.interpret c sink).machine.fault.map Fault.site =
        (n.interpret d other).machine.fault.map
          Fault.site ∧
      (m.interpret c sink).machine.steps =
        (n.interpret d other).machine.steps ∧
      (m.interpret c sink).machine.stack.toList.length =
        (n.interpret d other).machine.stack.toList.length ∧
      (m.reset.completed c).map Instruction.opcode =
        (n.reset.completed d).map Instruction.opcode ∧
      (m.interpret c sink).machine.stack.toList.length +
          ((m.reset.completed c).map
            Instruction.opcode).countP Opcode.isBinary =
        ((m.reset.completed c).map
          Instruction.opcode).count .constant := by
  have hShape : c.SameShape d := ⟨hCode, hPool⟩
  have hStart := alike_reset hLimit
  rcases run_alike hShape hStart (m.opened c sink)
      (n.opened d other) with
    ⟨hEnd, hSite⟩
  have hVerdict :
      (m.interpret c sink).verdict =
        (n.interpret d other).verdict := by
    have hFaults := congrArg Option.isSome hSite
    rw [Option.isSome_map, Option.isSome_map] at hFaults
    rw [verdict_of_fault, verdict_of_fault, hFaults]
  have hSize :=
    Instruction.size_of_executeAll
      (executeAll_completed_reset m c sink)
  rw [Stack.length_toList, Stack.length_toList]
  refine ⟨hVerdict, hSite, hEnd.steps_eq, hEnd.size_eq,
    completed_alike hShape hStart, ?_⟩
  simpa [reset, Stack.reset, Stack.size] using hSize

/-
  A division by zero takes the same course as a division of
  a NaN by an infinity at other positions.
-/
theorem interpret_ignores_values_division :
    ((Machine.new {}).interpret
          { code := #[0, 0, 0, 1, 5, 6]
            positions := .replicate 6 ⟨3, 1⟩
            constants := #[1, 0] }
          ({} : ByteSink)).verdict =
        .ok ∧
      ((Machine.new {}).interpret
          { code := #[0, 0, 0, 1, 5, 6]
            constants := #[0 / 0, 1 / 0] }
          ({} : ByteSink)).verdict =
        .ok := by
  have hOk :
      ((Machine.new {}).interpret
          { code := #[0, 0, 0, 1, 5, 6]
            positions := .replicate 6 ⟨3, 1⟩
            constants := #[1, 0] }
          ({} : ByteSink)).verdict =
        .ok := by
    decide +kernel
  have hSame :=
    interpret_ignores_values (Machine.new {})
      (Machine.new {}) rfl
      { code := #[0, 0, 0, 1, 5, 6]
        positions := .replicate 6 ⟨3, 1⟩
        constants := #[1, 0] }
      { code := #[0, 0, 0, 1, 5, 6]
        constants := #[0 / 0, 1 / 0] }
      rfl rfl ({} : ByteSink) ({} : ByteSink)
  exact ⟨hOk, hSame.1.symm.trans hOk⟩

end Machine

end Abacus
