import Abacus.Proofs.Chunk.Growth
import Abacus.Proofs.Machine.Completed
import Abacus.Proofs.Program.Encoding
import Abacus.Sink.Bytes

/-
  What a fault tells.

  A fault names the instruction that did not complete, and
  its cause says why: the bytes at its offset, the size of
  the stack or the step limit account for it. The stack is
  the one that the instructions before it left.

  Main declarations:
    * `Machine.Justifies`
    * `Machine.justifies_of_fetch_error`
    * `Machine.justifies_of_execute_error`
    * `Machine.justifies_of_failed`
    * `Machine.steps_le_of_mem_history`
    * `Machine.interpret_fault_diagnosed`
-/

------------------------------------------------------------
-- Causes
------------------------------------------------------------

namespace Abacus

namespace Machine

/-
  What a cause says of the machine whose step fails: of the
  code at its offset, of the number of values on its stack,
  or of its steps.
-/
def Justifies
    (c : Chunk)
    (m : Machine) :
    Cause → Prop
| .unexpectedEnd offset =>
    offset = m.offset ∧ m.offset = c.size
| .invalidOpcode byte offset =>
    offset = m.offset ∧
      c.code[m.offset]? = some byte ∧ 7 ≤ byte.toNat
| .missingOperand offset =>
    offset = m.offset ∧
      m.offset + 1 = c.size ∧ c.code[m.offset]? = some 0
| .invalidConstant index poolSize =>
    c.code[m.offset]? = some 0 ∧
      c.code[m.offset + 1]?.map UInt8.toNat = some index ∧
      poolSize ≤ index ∧ poolSize = c.constants.size
| .stackOverflow capacity =>
    c.code[m.offset]? = some 0 ∧
      (∃ index,
        c.code[m.offset + 1]? = some index ∧
          index.toNat < c.constants.size) ∧
      m.stack.toList.length = 256 ∧ capacity = 256
| .stackUnderflow =>
    (c.code[m.offset]? = some 1 ∧
        m.stack.toList.length = 0) ∨
      ∃ byte,
        c.code[m.offset]? = some byte ∧
          2 ≤ byte.toNat ∧
          byte.toNat ≤ 5 ∧ m.stack.toList.length < 2
| .stepLimitExceeded limit =>
    m.config.stepLimit = some limit ∧ m.steps = limit

end Machine

namespace Opcode

/- Seven bytes are opcodes, the smallest ones. -/
theorem seven_le_of_ofByte?_eq_none
    {byte : UInt8}
    (hOp : ofByte? byte = none) :
    7 ≤ byte.toNat := by
  unfold ofByte? at hOp
  split at hOp <;> grind

/- Four of them are binary operations. -/
theorem toNat_toByte_binary
    (operator : Operator) :
    2 ≤ (binary operator).toByte.toNat ∧
      (binary operator).toByte.toNat ≤ 5 := by
  cases operator <;> decide

end Opcode

end Abacus

------------------------------------------------------------
-- Steps That Fail
------------------------------------------------------------

namespace Abacus

namespace Machine

variable {c : Chunk}
variable {m m' : Machine}

/-
  A fault in reading is a matter of the bytes. The cases are
  those of the reader: no byte, no opcode, no operand, and
  an index behind the pool.
-/
theorem justifies_of_fetch_error
    (hBound : m.offset ≤ c.size)
    {cause : Cause}
    {next : Nat}
    (hFetch : c.fetch m.offset = (.error cause, next)) :
    m.Justifies c cause := by
  unfold Chunk.fetch at hFetch
  cases hByte : c.code[m.offset]? with
  | none =>
      simp only [hByte] at hFetch
      cases hFetch
      have hEnd := Array.getElem?_eq_none_iff.mp hByte
      exact ⟨rfl, Nat.le_antisymm hBound hEnd⟩
  | some byte =>
      simp only [hByte] at hFetch
      cases hOp : Opcode.ofByte? byte with
      | none =>
          simp only [hOp] at hFetch
          cases hFetch
          exact ⟨rfl, hByte,
            Opcode.seven_le_of_ofByte?_eq_none hOp⟩
      | some op =>
          have hSame := Opcode.toByte_of_ofByte? hOp
          subst hSame
          simp only [hOp] at hFetch
          cases op with
          | constant =>
              simp only [Chunk.fetchConstant] at hFetch
              cases hIndex : c.code[m.offset + 1]? with
              | none =>
                  simp only [hIndex] at hFetch
                  cases hFetch
                  have hLt :=
                    (Array.getElem?_eq_some_iff.mp hByte).1
                  have hEnd :=
                    Array.getElem?_eq_none_iff.mp hIndex
                  exact ⟨rfl, Nat.le_antisymm hLt hEnd,
                    hByte⟩
              | some index =>
                  simp only [hIndex] at hFetch
                  cases hValue : c.constant? index.toNat with
                  | some value => simp [hValue] at hFetch
                  | none =>
                      simp only [hValue] at hFetch
                      cases hFetch
                      have hEnd :=
                        Array.getElem?_eq_none_iff.mp hValue
                      exact ⟨hByte, by rw [hIndex]; rfl,
                        hEnd, rfl⟩
          | _ => cases hFetch

/-
  A fault in executing is a matter of the size of the stack:
  a constant finds it full, an operation finds too little.
-/
theorem justifies_of_execute_error
    {i : Instruction}
    {next : Nat}
    {cause : Cause}
    (hFetch : c.fetch m.offset = (.ok i, next))
    (hExecute : i.execute m.stack = .error cause) :
    m.Justifies c cause := by
  rcases Chunk.code_of_fetch_ok hFetch with
    ⟨hByte, hOperand⟩
  have hResize :=
    Instruction.resize_of_execute_error hExecute
  cases i with
  | push value =>
      rcases hOperand value rfl with ⟨index, hIndex, hValue⟩
      have hLt := (Array.getElem?_eq_some_iff.mp hValue).1
      have hCapacity := m.stack.size_le_capacity
      simp only [Instruction.opcode, Opcode.resize] at hResize
      split at hResize
      · cases hResize
      · rename_i hNoRoom
        cases hResize
        refine ⟨hByte, ⟨index, hIndex, hLt⟩, ?_, rfl⟩
        rw [Stack.length_toList]
        exact Nat.le_antisymm hCapacity
          (Nat.le_of_not_lt hNoRoom)
  | negate =>
      simp only [Instruction.opcode, Opcode.resize] at hResize
      split at hResize
      · cases hResize
      · cases hResize
        refine .inl ⟨hByte, ?_⟩
        rw [Stack.length_toList]
        omega
  | binary operator =>
      rcases Opcode.toNat_toByte_binary operator with
        ⟨hLow, hHigh⟩
      simp only [Instruction.opcode, Opcode.resize] at hResize
      split at hResize
      · cases hResize
      · cases hResize
        refine .inr ⟨_, hByte, hLow, hHigh, ?_⟩
        rw [Stack.length_toList]
        omega
  | ret => cases hResize

/- A step that fails is justified by its machine. -/
theorem justifies_of_failed
    (hBound : m.offset ≤ c.size)
    (hLimit :
      ∀ limit,
        m.config.stepLimit = some limit →
          m.steps ≤ limit)
    {cause : Cause}
    (hStep : m.step c = .failed cause m') :
    m.Justifies c cause := by
  have hCase := step_case c m
  rw [hStep] at hCase
  cases hCase with
  | refused hRefused =>
      rcases exists_limit_of_refused hRefused with
        ⟨limit, hSome, hSpent, hCause⟩
      subst hCause
      exact ⟨hSome,
        Nat.le_antisymm (hLimit limit hSome) hSpent⟩
  | unread hAllowed hFetch =>
      exact justifies_of_fetch_error hBound hFetch
  | stuck hAllowed hFetch hExecute =>
      exact justifies_of_execute_error hFetch hExecute

end Machine

end Abacus

------------------------------------------------------------
-- Steps Under A Limit
------------------------------------------------------------

namespace Abacus

namespace Machine

variable {c : Chunk}
variable {m m' s : Machine}
variable {limit : Nat}

/- A step that goes on is within the limit. -/
theorem steps_le_of_next
    (hLimit : m.config.stepLimit = some limit)
    (hStep : m.step c = .next m') :
    m'.steps ≤ limit := by
  have hCase := step_case c m
  rw [hStep] at hCase
  cases hCase with
  | executed hAllowed hFetch hGoesOn hExecute =>
      simp only [refusal?, hLimit] at hAllowed
      split at hAllowed
      · cases hAllowed
      · simp only [started]
        omega

/- So is every step of a run. -/
theorem steps_le_of_mem_history
    (hLimit : m.config.stepLimit = some limit)
    (hStart : m.steps ≤ limit)
    (hMem : s ∈ m.history c) :
    s.steps ≤ limit := by
  -- The limit itself is part of what every step keeps.
  have hBoth :=
    holds_of_mem_history
      (P := fun s =>
        s.config.stepLimit = some limit ∧ s.steps ≤ limit)
      (c := c) ?_ ⟨hLimit, hStart⟩ hMem
  · exact hBoth.2
  · rintro s s' hStep ⟨hHere, _⟩
    rw [config_of_step_next hStep]
    exact ⟨hHere, steps_le_of_next hHere hStep⟩

/- A step that is refused leaves the machine alone. -/
theorem eq_of_spent_limit
    (hLimit : m.config.stepLimit = some limit)
    (hSpent : limit ≤ m.steps)
    {cause : Cause}
    (hStep : m.step c = .failed cause m') :
    m' = m := by
  have hRefused :
      m.refusal? = some (.stepLimitExceeded limit) := by
    simp [refusal?, hLimit, hSpent]
  rw [step_of_refused hRefused] at hStep
  cases hStep
  rfl

end Machine

end Abacus

------------------------------------------------------------
-- Interpretation
------------------------------------------------------------

namespace Abacus

namespace Machine

variable {σ : Type}
variable [Sink σ]

/-
  The fault of a run is about the first instruction that did
  not complete: it has the offset and the position of that
  instruction, its cause is justified there, and the stack
  is what the completed instructions left. The position is
  missing only at the end of the code. A run that its limit
  cut off completed as many instructions as the limit says.
-/
theorem interpret_fault_diagnosed
    (c : Chunk)
    (hReachable : c.Reachable)
    (m : Machine)
    (sink : σ)
    (fault : Fault)
    (hFault :
      (m.interpret c sink).machine.fault = some fault) :
    ∃ last,
      (m.reset.history c).getLast? = some last ∧
        (∀ s ∈ (m.reset.history c).dropLast,
          ∃ s', s.step c = .next s') ∧
        (∃ last', last.step c = .failed fault.cause last') ∧
        fault.offset = last.offset ∧
        fault.offset =
          Instruction.span (m.reset.completed c) ∧
        fault.offset ≤ c.size ∧
        fault.position = c.position? fault.offset ∧
        (fault.position = none ↔ fault.offset = c.size) ∧
        Instruction.executeAll (m.reset.completed c)
            m.reset.stack =
          .ok (m.interpret c sink).machine.stack ∧
        last.stack = (m.interpret c sink).machine.stack ∧
        last.steps = (m.reset.completed c).length ∧
        last.Justifies c fault.cause ∧
        ∀ limit,
          fault.cause = .stepLimitExceeded limit →
            m.config.stepLimit = some limit ∧
              (m.reset.completed c).length = limit ∧
              (m.interpret c sink).machine.steps = limit := by
  rcases exists_failed_step hFault with
    ⟨last, hAt, hPassed, hFailed, hOffset, hPosition⟩
  have hMem := List.mem_of_getElem? hAt
  have hBound : last.offset ≤ c.size :=
    offset_le_of_mem_history (Nat.zero_le _) hMem
  have hSteps :
      last.steps = (m.reset.completed c).length := by
    rw [hPassed.steps_eq]
    exact Nat.zero_add _
  have hStack :=
    executeAll_completed_reset m c sink
  have hJustified : last.Justifies c fault.cause := by
    apply justifies_of_failed hBound _ hFailed
    intro limit hLimit
    rw [hPassed.config_eq] at hLimit
    exact steps_le_of_mem_history hLimit (Nat.zero_le _) hMem
  refine ⟨last,
    getLast?_history_of_mem hMem (by simp [hFailed]),
    fun s => exists_next_of_mem_dropLast, ⟨_, hFailed⟩,
    hOffset, ?_, ?_, ?_, ?_, hStack,
    Except.ok.inj (hPassed.stack_eq.symm.trans hStack),
    hSteps, hJustified, ?_⟩
  · rw [hOffset, hPassed.offset_eq]
    exact Nat.zero_add _
  · rw [hOffset]
    exact hBound
  · rw [hPosition, hOffset]
  · rw [hPosition, hOffset,
      hReachable.placed.position?_eq_none_iff]
    omega
  · intro limit hCause
    rw [hCause] at hJustified
    rcases hJustified with ⟨hLimit, hSpent⟩
    have hSame :=
      eq_of_spent_limit hLimit (Nat.le_of_eq hSpent.symm)
        hFailed
    have hCount :
        (m.interpret c sink).machine.steps = last.steps := by
      rw [← hSame]
      rfl
    rw [hPassed.config_eq] at hLimit
    exact ⟨hLimit, hSteps.symm.trans hSpent,
      hCount.trans hSpent⟩

/-
  The second constant asks for an entry that the pool does
  not have, after the first one was pushed.
-/
theorem interpret_fault_diagnosed_index :
    ((Machine.new {}).interpret
          (Chunk.ofEdits
            [.push 2.5 ⟨1, 1⟩, .byte 0 ⟨2, 7⟩,
              .byte 9 ⟨2, 8⟩])
          ({} : ByteSink)).machine.fault =
        some ⟨.invalidConstant 9 1, 2, some ⟨2, 7⟩⟩ ∧
      ∃ last : Machine,
        last.offset = 2 ∧
          last.stack.toList =
            ((Machine.new {}).interpret
              (Chunk.ofEdits
                [.push 2.5 ⟨1, 1⟩, .byte 0 ⟨2, 7⟩,
                  .byte 9 ⟨2, 8⟩])
              ({} : ByteSink)).machine.stack.toList ∧
          last.Justifies
            (Chunk.ofEdits
              [.push 2.5 ⟨1, 1⟩, .byte 0 ⟨2, 7⟩,
                .byte 9 ⟨2, 8⟩])
            (.invalidConstant 9 1) := by
  have hFault :
      ((Machine.new {}).interpret
          (Chunk.ofEdits
            [.push 2.5 ⟨1, 1⟩, .byte 0 ⟨2, 7⟩,
              .byte 9 ⟨2, 8⟩])
          ({} : ByteSink)).machine.fault =
        some ⟨.invalidConstant 9 1, 2, some ⟨2, 7⟩⟩ := by
    decide +kernel
  rcases interpret_fault_diagnosed _ ⟨_, rfl⟩ _ _ _ hFault
    with
    ⟨last, _, _, _, hOffset, _, _, _, _, _, hStack, _,
      hJustified, _⟩
  exact ⟨hFault, last, hOffset.symm, by rw [hStack],
    hJustified⟩

end Machine

end Abacus
