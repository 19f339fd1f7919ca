import Abacus.Proofs.Bare.Machine

/-
  Bounds on what a run counts.

  Every run ends within the code. Before each step a machine
  has read the bytes of the completed instructions and no
  others, has counted one step for each of them, and holds
  at most one value for each. So its counters stay below the
  size of the code, and on machine words nothing wraps and
  no slot is out of range.

  Main declarations:
    * `Machine.InBounds`
    * `Machine.inBounds_of_getElem?_history`
    * `Machine.run_within`
    * `Machine.interpret_within_bounds`
-/

------------------------------------------------------------
-- The Step That Ends A Run
------------------------------------------------------------

namespace Abacus

namespace Chunk

/- Reading never passes the end of the code. -/
theorem fetch_next_le
    {c : Chunk}
    {offset next : Nat}
    {fetched : Except Cause Instruction}
    (hBound : offset ≤ c.size)
    (hFetch : c.fetch offset = (fetched, next)) :
    next ≤ c.size := by
  unfold fetch at hFetch
  split at hFetch
  · cases hFetch
    exact hBound
  · rename_i byte hByte
    have hIn := (Array.getElem?_eq_some_iff.mp hByte).1
    split at hFetch
    case h_2 =>
      unfold fetchConstant at hFetch
      split at hFetch
      · cases hFetch
        exact hIn
      · rename_i index hIndex
        have hNext := (Array.getElem?_eq_some_iff.mp hIndex).1
        split at hFetch <;>
        · cases hFetch
          exact hNext
    all_goals
      cases hFetch
      exact hIn

end Chunk

namespace Machine

variable {c : Chunk}
variable {m m' : Machine}

/- A step that returns was the reading of one byte. -/
theorem bounds_of_returned
    (hSteps : m.steps ≤ m.offset)
    (hStep : m.step c = .returned m') :
    m'.offset ≤ c.size ∧ m'.steps ≤ c.size := by
  have hCase := step_case c m
  rw [hStep] at hCase
  cases hCase with
  | @returned next hAllowed hFetch =>
      rcases Chunk.fetch_ok hFetch with ⟨hNext, hIn⟩
      have hWidth := Instruction.ret.width_pos
      refine ⟨hIn, ?_⟩
      change m.steps + 1 ≤ c.size
      omega

/- A step that fails may have been counted. -/
theorem bounds_of_failed
    {cause : Cause}
    (hSteps : m.steps ≤ m.offset)
    (hBound : m.offset ≤ c.size)
    (hStep : m.step c = .failed cause m') :
    m'.offset ≤ c.size ∧ m'.steps ≤ c.size + 1 := by
  have hCount : m.steps + 1 ≤ c.size + 1 := by omega
  have hCase := step_case c m
  rw [hStep] at hCase
  cases hCase with
  | refused hRefused =>
      exact ⟨hBound, Nat.le_of_succ_le hCount⟩
  | unread hAllowed hFetch =>
      exact ⟨Chunk.fetch_next_le hBound hFetch, hCount⟩
  | stuck hAllowed hFetch hExecute =>
      exact ⟨Chunk.fetch_next_le hBound hFetch, hCount⟩

end Machine

end Abacus

------------------------------------------------------------
-- Runs
------------------------------------------------------------

namespace Abacus

namespace Machine

variable {σ : Type}
variable [Sink σ]
variable {c : Chunk}
variable {m s : Machine}

/-
  A run ends within the code, with no more steps than bytes,
  and one more if it fails.
-/
theorem run_within
    (t : Tracer σ)
    (hSteps : m.steps ≤ m.offset)
    (hBound : m.offset ≤ c.size) :
    (run c t m).machine.offset ≤ c.size ∧
      (run c t m).machine.steps ≤ c.size + 1 ∧
      ((run c t m).fault = none →
        (run c t m).machine.steps ≤ c.size) := by
  induction m using induction_forward (c := c)
    generalizing t with
  | step m ih =>
      cases hStep : m.step c with
      | next m' =>
          rw [run_of_next hStep]
          exact ih m' hStep _
            (steps_le_offset_of_next hStep hSteps)
            (offset_le_of_next hStep)
      | returned m' =>
          rcases bounds_of_returned hSteps hStep with
            ⟨hOffset, hCount⟩
          rw [run_of_returned hStep]
          exact ⟨hOffset, Nat.le_succ_of_le hCount,
            fun _ => hCount⟩
      | failed cause m' =>
          rcases bounds_of_failed hSteps hBound hStep with
            ⟨hOffset, hCount⟩
          rw [run_of_failed hStep]
          exact ⟨hOffset, hCount, nofun⟩

/-
  The counters of a machine after some instructions, and
  what they say of the slots that its next step may use.
-/
structure InBounds
    (c : Chunk)
    (is : List Instruction)
    (s : Machine) : Prop where
  offset_eq : s.offset = Instruction.span is
  steps_eq : s.steps = is.length
  steps_le : s.steps ≤ s.offset
  offset_le : s.offset ≤ c.size
  top_le : s.stack.top ≤ min Stack.capacity s.steps
  trapFree : s.stack.TrapFree
  executes :
    ∀ i : Instruction,
      i.executeBare s.stack.bare =
        some ((i.execute s.stack).map Stack.bare)
  hasRoom :
    ∀ a b rest,
      s.stack.popPair = .ok (a, b, rest) →
        ∀ value, ∃ t, rest.push value = .ok t

/- The bounds hold before every step of a run. -/
theorem inBounds_of_getElem?_history
    {k : Nat}
    (hAt : (m.reset.history c)[k]? = some s) :
    s.InBounds c ((m.reset.completed c).take k) := by
  rcases passed_of_getElem?_history hAt with
    ⟨hLength, hPassed⟩
  have hOffset := hPassed.offset_eq
  have hSteps := hPassed.steps_eq
  have hWidths := Instruction.length_le_span
    ((m.reset.completed c).take k)
  have hSize := Instruction.size_le_of_executeAll
    hPassed.stack_eq
  have hZeroOffset : m.reset.offset = 0 := rfl
  have hZeroSteps : m.reset.steps = 0 := rfl
  have hZeroSize : m.reset.stack.size = 0 := rfl
  exact
    { offset_eq := by omega
      steps_eq := by omega
      steps_le := by omega
      offset_le :=
        offset_le_of_mem_history (Nat.zero_le _)
          (List.mem_of_getElem? hAt)
      top_le := by
        apply Nat.le_min.mpr
        refine ⟨s.stack.top_le, ?_⟩
        change s.stack.size ≤ s.steps
        omega
      trapFree := s.stack.trapFree
      executes := s.stack.bare_execute
      hasRoom := fun _ _ _ =>
        Stack.exists_push_of_popPair }

end Machine

end Abacus

------------------------------------------------------------
-- Interpretation
------------------------------------------------------------

namespace Abacus

namespace Machine

variable {σ : Type}
variable [Sink σ]

/-
  The run of any code ends after at most one step more than
  there are bytes. Before every step its counters are those
  of the completed instructions, and the stack has slots for
  what the next one does. At the end it is still within the
  code, with no more steps than bytes if it returned. So on
  words of 64 bits, which can count any code that fits into
  memory, the run is the same: no count wraps around, and no
  slot is out of range.
-/
theorem interpret_within_bounds
    (m : Machine)
    (c : Chunk)
    (sink : σ) :
    (∀ t : Tracer σ,
        runWithin c (c.size + 1) t m.reset =
          some (run c t m.reset)) ∧
      (∀ k s,
        (m.reset.history c)[k]? = some s →
          ((m.reset.completed c).take k).length = k ∧
            s.InBounds c ((m.reset.completed c).take k)) ∧
      (m.interpret c sink).machine.offset ≤ c.size ∧
      ((m.interpret c sink).verdict = .ok →
        (m.interpret c sink).machine.steps ≤ c.size) ∧
      (m.interpret c sink).machine.steps ≤ c.size + 1 ∧
      (c.size < Nat.pow 2 63 →
        m.reset.bare.run c (c.size + 1) =
          some
            ( (m.interpret c sink).machine.bare,
              (m.interpret c sink).machine.fault )) := by
  have hStart : m.reset.steps ≤ m.reset.offset :=
    Nat.le_refl 0
  have hBound : m.reset.offset ≤ c.size :=
    Nat.zero_le c.size
  have hFuel : c.size - m.reset.offset < c.size + 1 := by
    omega
  rcases run_within (m.opened c sink) hStart hBound with
    ⟨hOffset, hSteps, hReturned⟩
  refine ⟨fun t => runWithin_eq_run t hFuel, ?_, hOffset,
    ?_, hSteps, ?_⟩
  · intro k s hAt
    exact ⟨(passed_of_getElem?_history hAt).1,
      inBounds_of_getElem?_history hAt⟩
  · intro hOk
    apply hReturned
    rw [verdict_of_fault] at hOk
    simpa using hOk
  · intro hSize
    have hFits : c.size + 1 < UInt64.size :=
      Nat.lt_of_le_of_lt
        (Nat.succ_le_of_lt hSize) (by decide)
    exact bare_run (m.opened c sink) hFits hStart hBound
      hFuel

end Machine

end Abacus
