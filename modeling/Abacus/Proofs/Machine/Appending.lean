import Abacus.Chunk.Demo
import Abacus.Proofs.Chunk.Growth
import Abacus.Proofs.Listing.Agreement
import Abacus.Proofs.Machine.Completed
import Abacus.Proofs.Machine.StepLimit

/-
  Appending to a chunk.

  A machine that runs a chunk may miss what is not there
  yet: more code, an operand, or a constant. Every other
  step reads an instruction that is settled, and takes place
  in the same way however the chunk grows. So a run of the
  longer chunk goes through the same steps, and ends as
  before unless something was missing at the end.

  Main declarations:
    * `Cause.isOpen` and `Cause.isFinal`
    * `Chunk.Settled`
    * `Chunk.Settled.fetch_eq`
    * `Chunk.Settled.rowAfter_eq`
    * `Machine.step_of_growsTo`
    * `Machine.history_prefix_of_growsTo`
    * `Machine.run_of_growsTo`
    * `Machine.interpret_appended`
-/

------------------------------------------------------------
-- Causes
------------------------------------------------------------

namespace Abacus

namespace Cause

/- A cause that code or constants to come may take away. -/
def isOpen :
    Cause → Bool
| .unexpectedEnd _ => true
| .missingOperand _ => true
| .invalidConstant _ _ => true
| _ => false

/- A cause that lies in what was read and executed. -/
def isFinal :
    Cause → Bool
| .stackOverflow _ => true
| .stackUnderflow => true
| .invalidOpcode _ _ => true
| _ => false

theorem isOpen_of_isFinal
    {cause : Cause}
    (hFinal : cause.isFinal = true) :
    cause.isOpen = false := by
  cases cause <;> simp_all [isOpen, isFinal]

end Cause

end Abacus

------------------------------------------------------------
-- Settled Instructions
------------------------------------------------------------

namespace Abacus

namespace Chunk

/- Nothing is missing from what is read at an offset. -/
def Settled
    (c : Chunk)
    (offset : Nat) : Prop :=
  ∀ cause,
    (c.fetch offset).1 = .error cause →
      cause.isOpen = false

namespace Settled

variable {c d : Chunk}
variable {offset : Nat}

/- There is a byte, and a constant has all that it needs. -/
theorem exists_byte
    (hSettled : c.Settled offset) :
    ∃ byte,
      c.code[offset]? = some byte ∧
        (Opcode.ofByte? byte = some .constant →
          ∃ index value,
            c.code[offset + 1]? = some index ∧
              c.constant? index.toNat = some value) := by
  unfold Settled fetch at hSettled
  cases hByte : c.code[offset]? with
  | none =>
      rw [hByte] at hSettled
      cases hSettled _ rfl
  | some byte =>
      refine ⟨byte, rfl, ?_⟩
      intro hOp
      simp only [hByte, hOp, fetchConstant] at hSettled
      cases hIndex : c.code[offset + 1]? with
      | none =>
          rw [hIndex] at hSettled
          cases hSettled _ rfl
      | some index =>
          simp only [hIndex] at hSettled
          cases hValue : c.constant? index.toNat with
          | none =>
              rw [hValue] at hSettled
              cases hSettled _ rfl
          | some value => exact ⟨index, value, rfl, hValue⟩

theorem offset_lt
    (hSettled : c.Settled offset) :
    offset < c.size := by
  rcases hSettled.exists_byte with ⟨byte, hByte, _⟩
  exact (Array.getElem?_eq_some_iff.mp hByte).1

/- A settled instruction is read in every larger chunk. -/
theorem fetch_eq
    (hSettled : c.Settled offset)
    (hGrows : c.GrowsTo d) :
    d.fetch offset = c.fetch offset := by
  rcases hSettled.exists_byte with ⟨byte, hByte, hOperand⟩
  have hByte' := hGrows.code_eq_some hByte
  unfold fetch
  simp only [hByte, hByte']
  cases hOp : Opcode.ofByte? byte with
  | none => rfl
  | some op =>
      cases op with
      | constant =>
          rcases hOperand hOp with
            ⟨index, value, hIndex, hValue⟩
          have hIndex' := hGrows.code_eq_some hIndex
          have hValue' := hGrows.constant?_eq_some hValue
          simp only [fetchConstant, hIndex, hIndex', hValue,
            hValue']
      | _ => rfl

/- The body of its row is the same. -/
theorem bodyAt_eq
    (hSettled : c.Settled offset)
    (hGrows : c.GrowsTo d)
    {byte : UInt8}
    (hByte : c.code[offset]? = some byte) :
    d.bodyAt offset byte = c.bodyAt offset byte := by
  rcases hSettled.exists_byte with ⟨found, hFound, hOperand⟩
  cases hByte.symm.trans hFound
  unfold bodyAt
  cases hOp : Opcode.ofByte? byte with
  | none => rfl
  | some op =>
      cases op with
      | constant =>
          rcases hOperand hOp with
            ⟨index, value, hIndex, hValue⟩
          have hIndex' := hGrows.code_eq_some hIndex
          have hValue' := hGrows.constant?_eq_some hValue
          simp only [constantAt, hIndex, hIndex', hValue,
            hValue']
      | _ => rfl

/- So is the whole row, if every byte has its position. -/
theorem rowAfter_eq
    (hSettled : c.Settled offset)
    (hPlaced : c.Placed)
    (hGrows : c.GrowsTo d)
    (previous : Option Nat) :
    d.rowAfter previous offset =
      c.rowAfter previous offset := by
  have hPosition :=
    hPlaced.position?_eq hGrows hSettled.offset_lt
  rcases hSettled.exists_byte with ⟨byte, hByte, _⟩
  simp only [rowAfter, placeAfter, hPosition, hByte,
    hGrows.code_eq_some hByte,
    hSettled.bodyAt_eq hGrows hByte]

theorem rowAt_eq
    (hSettled : c.Settled offset)
    (hPlaced : c.Placed)
    (hGrows : c.GrowsTo d) :
    d.rowAt offset = c.rowAt offset := by
  have hWithin := hSettled.offset_lt
  have hLine :
      d.lineBefore? offset = c.lineBefore? offset := by
    cases offset with
    | zero => rfl
    | succ before =>
        have hBefore :=
          hPlaced.position?_eq hGrows
            (show before < c.size by omega)
        simp only [lineBefore?, line?, hBefore]
  rw [rowAt, rowAt, hLine]
  exact hSettled.rowAfter_eq hPlaced hGrows _

end Settled

end Chunk

end Abacus

------------------------------------------------------------
-- Steps In A Larger Chunk
------------------------------------------------------------

namespace Abacus

namespace Machine

variable {c d : Chunk}
variable {m : Machine}

/- A step that misses nothing reads what is settled. -/
theorem settled_of_step
    (hAllowed : m.refusal? = none)
    (hClosed :
      ∀ cause m',
        m.step c = .failed cause m' →
          cause.isOpen = false) :
    c.Settled m.offset := by
  intro cause hError
  rcases hFetch : c.fetch m.offset with ⟨fetched, next⟩
  rw [hFetch] at hError
  dsimp only at hError
  subst hError
  exact hClosed _ _ (step_of_fetch_error hAllowed hFetch)

/- A step that misses nothing is the same one later. -/
theorem step_of_growsTo
    (hGrows : c.GrowsTo d)
    (hClosed :
      ∀ cause m',
        m.step c = .failed cause m' →
          cause.isOpen = false) :
    m.step d = m.step c := by
  cases hRefusal : m.refusal? with
  | some cause =>
      rw [step_of_refused hRefusal,
        step_of_refused hRefusal]
  | none =>
      have hSettled := settled_of_step hRefusal hClosed
      simp only [step, hRefusal, dispatch,
        hSettled.fetch_eq hGrows]

/- A larger chunk is run through the same steps first. -/
theorem history_prefix_of_growsTo
    (hGrows : c.GrowsTo d)
    (m : Machine) :
    m.history c <+: m.history d := by
  induction m using induction_forward (c := c) with
  | step m ih =>
      cases hStep : m.step c with
      | next m' =>
          have hSame : m.step d = .next m' := by
            rw [step_of_growsTo hGrows (by simp [hStep]),
              hStep]
          rw [history_of_next hStep, history_of_next hSame]
          exact (List.prefix_cons_inj m).mpr (ih m' hStep)
      | _ =>
          rcases history_eq_cons d m with ⟨rest, hCons⟩
          rw [history_of_last (by simp [hStep]), hCons]
          exact List.prefix_append [m] rest

/- It completes at least the same instructions. -/
theorem completed_prefix_of_growsTo
    (hGrows : c.GrowsTo d)
    (m : Machine) :
    m.completed c <+: m.completed d := by
  induction m using induction_forward (c := c) with
  | step m ih =>
      cases hStep : m.step c with
      | next m' =>
          have hClosed :
              ∀ cause m',
                m.step c = .failed cause m' →
                  cause.isOpen = false := by
            simp [hStep]
          have hSame := step_of_growsTo hGrows hClosed
          have hCase := step_case c m
          rw [hStep] at hCase
          cases hCase with
          | executed hAllowed hFetch hGoesOn hExecute =>
              have hSettled :=
                settled_of_step hAllowed hClosed
              have hFetch' := hSettled.fetch_eq hGrows
              rw [completed_of_next hStep hFetch,
                completed_of_next (hSame.trans hStep)
                  (hFetch'.trans hFetch)]
              exact
                (List.prefix_cons_inj _).mpr (ih _ hStep)
      | returned m' =>
          have hSame : m.step d = .returned m' := by
            rw [step_of_growsTo hGrows (by simp [hStep]),
              hStep]
          simp [completed_of_returned hStep,
            completed_of_returned hSame]
      | failed cause m' =>
          rw [completed_of_failed hStep]
          exact List.nil_prefix

------------------------------------------------------------
-- Runs Of A Larger Chunk
------------------------------------------------------------

variable {σ : Type}
variable [Sink σ]

/- No step of a run misses anything if its fault does not. -/
theorem closed_of_mem_history
    {t : Tracer σ}
    (hClosed :
      ∀ fault,
        (run c t m).fault = some fault →
          fault.cause.isOpen = false)
    {s : Machine}
    (hMem : s ∈ m.history c)
    (cause : Cause)
    (s' : Machine)
    (hStep : s.step c = .failed cause s') :
    cause.isOpen = false :=
  hClosed _ (fault_of_failed_mem_history t hMem hStep)

/-
  A run that misses nothing is the same run of every larger
  chunk. Only the position of its fault is looked up anew.
  The induction is on the run, each step of which is the
  same in both chunks.
-/
theorem run_of_growsTo
    (hGrows : c.GrowsTo d)
    (t u : Tracer σ)
    (hClosed :
      ∀ fault,
        (run c t m).fault = some fault →
          fault.cause.isOpen = false) :
    m.history d = m.history c ∧
      (run d u m).machine = (run c t m).machine ∧
      (run d u m).fault =
        (run c t m).fault.map fun fault =>
          { fault with
            position := d.position? fault.offset } := by
  induction m using induction_forward (c := c)
    generalizing t u with
  | step m ih =>
      have hHere : m ∈ m.history c := by
        rcases history_eq_cons c m with ⟨rest, hCons⟩
        simp [hCons]
      have hSame :=
        step_of_growsTo hGrows
          (closed_of_mem_history hClosed hHere)
      cases hStep : m.step c with
      | next m' =>
          rw [hStep] at hSame
          rw [run_of_next hStep] at hClosed ⊢
          rw [run_of_next hSame, history_of_next hStep,
            history_of_next hSame]
          rcases ih m' hStep _ (u.observe d m) hClosed with
            ⟨hHistory, hRest⟩
          exact ⟨congrArg (m :: ·) hHistory, hRest⟩
      | returned m' =>
          rw [hStep] at hSame
          rw [run_of_returned hStep, run_of_returned hSame,
            history_of_last (by simp [hSame]),
            history_of_last (by simp [hStep])]
          exact ⟨rfl, rfl, rfl⟩
      | failed cause m' =>
          rw [hStep] at hSame
          rw [run_of_failed hStep, run_of_failed hSame,
            history_of_last (by simp [hSame]),
            history_of_last (by simp [hStep])]
          exact ⟨rfl, rfl, rfl⟩

end Machine

end Abacus

------------------------------------------------------------
-- Traces Of A Larger Chunk
------------------------------------------------------------

namespace Abacus

namespace Machine

variable {c d : Chunk}
variable {m : Machine}

/-
  Steps that read settled instructions have the same entries
  in the trace of every larger chunk.
-/
theorem traceBytes_of_growsTo
    (hPlaced : c.Placed)
    (hGrows : c.GrowsTo d)
    {steps : List Machine}
    (hSettled : ∀ s ∈ steps, c.Settled s.offset) :
    m.traceBytes d steps = m.traceBytes c steps := by
  have hFilter :
      (steps.filter fun s => s.offset < d.size) =
        steps.filter fun s => s.offset < c.size := by
    apply List.filter_congr
    intro s hMem
    have hWithin := (hSettled s hMem).offset_lt
    have hSize := hGrows.size_le
    simp only [hWithin, decide_true, decide_eq_true_eq]
    omega
  have hEntries :
      (steps.filter fun s => s.offset < c.size).map
          (entry d) =
        (steps.filter fun s => s.offset < c.size).map
          (entry c) := by
    apply List.map_congr_left
    intro s hMem
    have hStep := hSettled s (List.mem_filter.mp hMem).1
    simp only [entry, hStep.rowAt_eq hPlaced hGrows]
  unfold traceBytes
  rw [hFilter, hEntries]

/- A step whose cause is final was not refused. -/
theorem settled_of_final
    (hFinal :
      ∀ cause m',
        m.step c = .failed cause m' →
          cause.isFinal = true) :
    c.Settled m.offset := by
  cases hRefusal : m.refusal? with
  | some cause =>
      have hSpent := hFinal _ _ (step_of_refused hRefusal)
      rcases exists_limit_of_refused hRefusal with
        ⟨limit, _, _, hCause⟩
      rw [hCause] at hSpent
      cases hSpent
  | none =>
      apply settled_of_step hRefusal
      intro cause m' hStep
      exact Cause.isOpen_of_isFinal (hFinal cause m' hStep)

end Machine

end Abacus

------------------------------------------------------------
-- Interpretation
------------------------------------------------------------

namespace Abacus

namespace Account

/- What a caller sees apart from the log. -/
def apartFromLog
    {σ : Type}
    (a : Account σ) : Account σ :=
  { a with log := [] }

end Account

namespace Machine

variable {σ : Type}
variable [Sink σ]

/-
  The faults of an interpretation that misses nothing, and
  its machine, are those of any larger chunk.
-/
theorem interpret_of_growsTo
    {c d : Chunk}
    (hGrows : c.GrowsTo d)
    (m : Machine)
    (sink : σ)
    (hClosed :
      ∀ fault,
        (m.interpret c sink).machine.fault = some fault →
          fault.cause.isOpen = false) :
    m.reset.history d = m.reset.history c ∧
      (m.interpret d sink).machine.stack =
        (m.interpret c sink).machine.stack ∧
      (m.interpret d sink).machine.steps =
        (m.interpret c sink).machine.steps ∧
      (m.interpret d sink).machine.fault =
        (m.interpret c sink).machine.fault.map fun fault =>
          { fault with
            position := d.position? fault.offset } := by
  rcases run_of_growsTo hGrows (m.opened c sink)
      (m.opened d sink) hClosed with
    ⟨hHistory, hMachine, hFault⟩
  rw [interpret_machine, interpret_machine, hMachine]
  exact ⟨hHistory, rfl, rfl, hFault⟩

/- A fault is placed where its instruction is. -/
theorem position_of_fault
    {m : Machine}
    {c : Chunk}
    {sink : σ}
    {fault : Fault}
    (hFault :
      (m.interpret c sink).machine.fault = some fault) :
    fault.position = c.position? fault.offset := by
  rcases exists_failed_step hFault with
    ⟨last, _, _, _, hOffset, hPosition⟩
  rw [hPosition, hOffset]

/- All steps read what is settled if the fault is final. -/
theorem settled_of_mem_history
    {m : Machine}
    {c : Chunk}
    {sink : σ}
    (hFinal :
      ∀ fault,
        (m.interpret c sink).machine.fault = some fault →
          fault.cause.isFinal = true)
    {s : Machine}
    (hMem : s ∈ m.reset.history c) :
    c.Settled s.offset := by
  apply settled_of_final
  intro cause s' hStep
  exact hFinal _ (fault_of_failed_mem_history _ hMem hStep)

/- A fault that is final is kept, with its position. -/
theorem fault_of_growsTo
    {c d : Chunk}
    (hPlaced : c.Placed)
    (hGrows : c.GrowsTo d)
    (m : Machine)
    (sink : σ)
    (hFinal :
      ∀ fault,
        (m.interpret c sink).machine.fault = some fault →
          fault.cause.isFinal = true) :
    (m.interpret d sink).machine.fault =
      (m.interpret c sink).machine.fault := by
  have hSame :=
    (interpret_of_growsTo hGrows m sink
      (fun fault hFault =>
        Cause.isOpen_of_isFinal (hFinal fault hFault))).2.2.2
  rw [hSame]
  cases hFault : (m.interpret c sink).machine.fault with
  | none => rfl
  | some fault =>
      have hPosition := position_of_fault hFault
      rcases exists_failed_step hFault with
        ⟨last, hAt, _, _, hOffset, _⟩
      have hSettled :=
        settled_of_mem_history hFinal
          (List.mem_of_getElem? hAt)
      rw [← hOffset] at hSettled
      have hKept :=
        hPlaced.position?_eq hGrows hSettled.offset_lt
      rw [Option.map_some, hKept, ← hPosition]

/- A sink without a limit ends as the collected trace. -/
theorem sink_interpret
    (m : Machine)
    (c : Chunk) :
    (m.interpret c ({} : ByteSink)).sink =
      { held := m.traceBytes c (m.reset.history c) } := by
  rw [← held_interpret, interpret_sink,
    ByteSink.writeAll_of_unlimited _ rfl]

/-
  A run that returned, or that failed for a final cause, is
  the same to a caller apart from the log.
-/
theorem account_of_growsTo
    {c d : Chunk}
    (hPlaced : c.Placed)
    (hGrows : c.GrowsTo d)
    (m : Machine)
    (hFinal :
      ∀ fault,
        (m.interpret c ({} : ByteSink)).machine.fault =
            some fault →
          fault.cause.isFinal = true) :
    (m.interpret d ({} : ByteSink)).account.apartFromLog =
      (m.interpret c
        ({} : ByteSink)).account.apartFromLog := by
  have hFault :=
    fault_of_growsTo hPlaced hGrows m _ hFinal
  rcases interpret_of_growsTo hGrows m ({} : ByteSink)
      (fun fault hFault =>
        Cause.isOpen_of_isFinal (hFinal fault hFault)) with
    ⟨hHistory, hStack, hSteps, _⟩
  have hVerdict :
      (m.interpret d ({} : ByteSink)).verdict =
        (m.interpret c ({} : ByteSink)).verdict := by
    rw [interpret_verdict, interpret_verdict,
      Interpretation.outcome, Interpretation.outcome,
      hStack, hSteps, hFault]
  have hTrace :=
    traceBytes_of_growsTo hPlaced hGrows
      (m := m)
      (fun s hMem => settled_of_mem_history hFinal hMem)
  have hSink :
      (m.interpret d ({} : ByteSink)).sink =
        (m.interpret c ({} : ByteSink)).sink := by
    rw [sink_interpret, sink_interpret, hHistory, hTrace]
  simp only [Account.apartFromLog, Interpretation.account,
    hVerdict, hStack, hSteps, hFault, hSink]

/- A run that the limit cut off is cut off there again. -/
theorem limited_of_growsTo
    {c d : Chunk}
    (hPlaced : c.Placed)
    (hGrows : c.GrowsTo d)
    {m : Machine}
    {sink : σ}
    {fault : Fault}
    {limit : Nat}
    (hFault : (m.interpret c sink).machine.fault = some fault)
    (hLimit : fault.cause = .stepLimitExceeded limit) :
    ∃ position,
      (m.interpret d sink).machine.fault =
          some ⟨fault.cause, fault.offset, position⟩ ∧
        (fault.offset < c.size →
          position = fault.position) ∧
        (m.interpret d sink).machine.stack.toList =
          (m.interpret c sink).machine.stack.toList ∧
        (m.interpret d sink).machine.steps =
          (m.interpret c sink).machine.steps := by
  have hClosed :
      ∀ found,
        (m.interpret c sink).machine.fault = some found →
          found.cause.isOpen = false := by
    intro found hFound
    cases hFault.symm.trans hFound
    rw [hLimit]
    rfl
  rcases interpret_of_growsTo hGrows m sink hClosed with
    ⟨_, hStack, hSteps, hSame⟩
  rw [hFault, Option.map_some] at hSame
  refine ⟨_, hSame, ?_, ?_, hSteps⟩
  · intro hWithin
    rw [position_of_fault hFault]
    exact hPlaced.position?_eq hGrows hWithin
  · rw [hStack]

/- A run that failed is gone through again to its end. -/
theorem reached_of_growsTo
    {c d : Chunk}
    (hGrows : c.GrowsTo d)
    {m : Machine}
    {sink : σ}
    {fault : Fault}
    (hFault :
      (m.interpret c sink).machine.fault = some fault) :
    m.reset.completed c <+: m.reset.completed d ∧
      ∃ s,
        (m.reset.history d)[
            (m.reset.completed c).length]? =
          some s ∧
        s.offset = fault.offset ∧
        s.steps = (m.reset.completed c).length ∧
        s.stack.toList =
          (m.interpret c sink).machine.stack.toList := by
  rcases exists_failed_step hFault with
    ⟨last, hAt, hPassed, _, hOffset, _⟩
  rcases history_prefix_of_growsTo hGrows m.reset with
    ⟨rest, hRest⟩
  have hStack :=
    hPassed.stack_eq.symm.trans
      (executeAll_completed_reset m c sink)
  refine ⟨completed_prefix_of_growsTo hGrows m.reset,
    last, ?_, hOffset.symm, ?_, ?_⟩
  · have hLength := (List.getElem?_eq_some_iff.mp hAt).1
    rw [← hRest, List.getElem?_append_left hLength]
    exact hAt
  · rw [hPassed.steps_eq]
    exact Nat.zero_add _
  · rw [Except.ok.inj hStack]

/-
  Whatever is appended to a chunk, a run that returned, or
  that failed for a cause in what was read, stays as it was
  in all that a caller sees but the log, which tells the
  size of the chunk. A run that the limit cut off is cut off
  at the same place. Any other run that failed, because
  something was missing, goes through the same steps to the
  same offset and stack, and may go on from there.
-/
theorem interpret_appended
    (c : Chunk)
    (hReachable : c.Reachable)
    (more : List Edit)
    (m : Machine) :
    ((∀ fault,
        (m.interpret c ({} : ByteSink)).machine.fault =
            some fault →
          fault.cause.isFinal = true) →
      (m.interpret (c.applyAll more)
          ({} : ByteSink)).account.apartFromLog =
        (m.interpret c
          ({} : ByteSink)).account.apartFromLog) ∧
    (∀ fault limit,
      (m.interpret c ({} : ByteSink)).machine.fault =
          some fault →
      fault.cause = .stepLimitExceeded limit →
      ∃ position,
        (m.interpret (c.applyAll more)
              ({} : ByteSink)).machine.fault =
            some ⟨fault.cause, fault.offset, position⟩ ∧
          (fault.offset < c.size →
            position = fault.position) ∧
          (m.interpret (c.applyAll more)
              ({} : ByteSink)).machine.stack.toList =
            (m.interpret c
              ({} : ByteSink)).machine.stack.toList ∧
          (m.interpret (c.applyAll more)
              ({} : ByteSink)).machine.steps =
            (m.interpret c
              ({} : ByteSink)).machine.steps) ∧
    ∀ fault,
      (m.interpret c ({} : ByteSink)).machine.fault =
          some fault →
      m.reset.completed c <+:
          m.reset.completed (c.applyAll more) ∧
        ∃ s,
          (m.reset.history (c.applyAll more))[
              (m.reset.completed c).length]? =
            some s ∧
          s.offset = fault.offset ∧
          s.steps = (m.reset.completed c).length ∧
          s.stack.toList =
            (m.interpret c
              ({} : ByteSink)).machine.stack.toList := by
  have hPlaced := hReachable.placed
  have hGrows := c.growsTo_applyAll more
  refine ⟨?_, ?_, ?_⟩
  · intro hFinal
    exact account_of_growsTo hPlaced hGrows m hFinal
  · intro fault limit hFault hLimit
    exact limited_of_growsTo hPlaced hGrows hFault hLimit
  · intro fault hFault
    exact reached_of_growsTo hGrows hFault

/-
  A chunk whose last constant has no operand yet, and the
  same chunk with the operand, a constant and a return
  behind it. The demonstration chunk ends with its return,
  whatever stands behind it.
-/
theorem interpret_appended_operand :
    (((Machine.new { trace := true }).interpret
          (Chunk.demo.applyAll
            [.byte 255 ⟨6, 1⟩, .constant 7])
          ({} : ByteSink)).account.apartFromLog =
        ((Machine.new { trace := true }).interpret Chunk.demo
          ({} : ByteSink)).account.apartFromLog) ∧
      ∃ s,
        ((Machine.new {}).reset.history
            ((Chunk.ofEdits
                [.push 1 ⟨1, 1⟩,
                  .op .constant ⟨1, 5⟩]).applyAll
              [.byte 1 ⟨1, 5⟩, .constant 2,
                .op .ret ⟨2, 1⟩]))[1]? =
            some s ∧
          s.offset = 2 ∧
          s.stack.toList = [1] := by
  have hDemo :
      ((Machine.new { trace := true }).interpret Chunk.demo
          ({} : ByteSink)).machine.fault =
        none := by
    decide +kernel
  have hFault :
      ((Machine.new {}).interpret
          (Chunk.ofEdits
            [.push 1 ⟨1, 1⟩, .op .constant ⟨1, 5⟩])
          ({} : ByteSink)).machine.fault =
        some ⟨.missingOperand 2, 2, some ⟨1, 5⟩⟩ := by
    decide +kernel
  have hStack :
      ((Machine.new {}).interpret
          (Chunk.ofEdits
            [.push 1 ⟨1, 1⟩, .op .constant ⟨1, 5⟩])
          ({} : ByteSink)).machine.stack.toList =
        [1] := by
    decide +kernel
  have hCompleted :
      ((Machine.new {}).reset.completed
          (Chunk.ofEdits
            [.push 1 ⟨1, 1⟩,
              .op .constant ⟨1, 5⟩])).length =
        1 := by
    decide +kernel
  have hKept :=
    (interpret_appended Chunk.demo ⟨_, rfl⟩
      [.byte 255 ⟨6, 1⟩, .constant 7]
      (Machine.new { trace := true })).1
  have hGoesOn :=
    (interpret_appended
      (Chunk.ofEdits
        [.push 1 ⟨1, 1⟩, .op .constant ⟨1, 5⟩])
      ⟨_, rfl⟩
      [.byte 1 ⟨1, 5⟩, .constant 2, .op .ret ⟨2, 1⟩]
      (Machine.new {})).2.2 _ hFault
  rw [hCompleted, hStack] at hGoesOn
  rcases hGoesOn with ⟨_, s, hAt, hOffset, _, hValues⟩
  exact ⟨hKept (by simp [hDemo]),
    s, hAt, hOffset, hValues⟩

end Machine

end Abacus
