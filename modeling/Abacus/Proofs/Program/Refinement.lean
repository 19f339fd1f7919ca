import Abacus.Proofs.Machine.History
import Abacus.Proofs.Program.Encoding

/-
  Runs are executions of the decoded program.

  A machine is related to the program that starts at its
  offset, to its count of steps, and to the values of its
  stack. One step of the machine is one token of the
  program, or its tail, so a run ends as the execution does.

  Main declarations:
    * `Token.effect_binary`
    * `Token.effect_of_resolve_ok`
    * `Machine.expected`
    * `Machine.step_of_token`
    * `Machine.exists_token_of_next`
    * `Machine.expected_step`
    * `Machine.run_outcome`
    * `Machine.interpret_refines_outcome`
-/

------------------------------------------------------------
-- Effects
------------------------------------------------------------

namespace Abacus

namespace Token

variable {token : Token}
variable {pool : List Number}
variable {s : Stack}

/- A token without an instruction fails as fetching does. -/
theorem effect_of_resolve_error
    {cause : Cause}
    (hResolve : token.resolve pool = .error cause)
    (values : List Number) :
    token.effect pool values = .error (some cause) := by
  cases token with
  | constant index =>
      cases hValue : pool[index.toNat]? with
      | none =>
          simp only [resolve, hValue] at hResolve
          cases hResolve
          simp [effect, hValue]
      | some value => simp [resolve, hValue] at hResolve
  | _ => cases hResolve

/- Only the return instruction returns. -/
theorem effect_of_resolve_ret
    (hResolve : token.resolve pool = .ok .ret)
    (values : List Number) :
    token.effect pool values = .error none := by
  cases token with
  | constant index =>
      simp only [resolve] at hResolve
      split at hResolve <;> cases hResolve
  | ret => cases values <;> rfl
  | _ => cases hResolve

/-
  The machine applies an operator as the operation of floats
  that it stands for.
-/
theorem effect_binary
    (pool : List Number)
    (operator : Operator)
    (a b : Number)
    (rest : List Number) :
    (Token.binary operator).effect pool (b :: a :: rest) =
      .ok (operator.apply a b :: rest) := by
  cases operator <;> rfl

/-
  The effect of any other token is that of its instruction
  on a stack with these values.
-/
theorem effect_of_resolve_ok
    {i : Instruction}
    (hResolve : token.resolve pool = .ok i)
    (hGoesOn : i ≠ .ret)
    (s : Stack) :
    token.effect pool s.values =
      ((i.execute s).map Stack.values).mapError some := by
  cases token with
  | constant index =>
      cases hValue : pool[index.toNat]? with
      | none => simp [resolve, hValue] at hResolve
      | some value =>
          simp only [resolve, hValue] at hResolve
          cases hResolve
          simp only [effect, hValue, Instruction.execute,
            Stack.push_values]
          split <;> rfl
  | negate =>
      cases hResolve
      simp only [Instruction.execute, Stack.negate_values]
      cases s.values <;> rfl
  | binary operator =>
      cases hResolve
      simp only [Instruction.execute, Stack.combine_values]
      rcases s.values with _ | ⟨b, _ | ⟨a, rest⟩⟩
      · exact effect_binary_of_few (by simp) pool operator
      · exact effect_binary_of_few (by simp) pool operator
      · exact effect_binary pool operator a b rest
  | ret =>
      cases hResolve
      exact absurd rfl hGoesOn

end Token

end Abacus

------------------------------------------------------------
-- Step Limits
------------------------------------------------------------

namespace Abacus

namespace Machine

/- The machine and the program refuse the same steps. -/
theorem refusal?_eq
    (m : Machine) :
    m.refusal? =
      Program.refusal? m.config.stepLimit m.steps := by
  unfold refusal? Program.refusal?
  cases m.config.stepLimit with
  | none => rfl
  | some limit =>
      by_cases hSpent : limit ≤ m.steps
      · simp [Option.filter, hSpent]
      · simp [Option.filter, hSpent]

end Machine

end Abacus

------------------------------------------------------------
-- Runs
------------------------------------------------------------

namespace Abacus

namespace Ending

/- What the end of a run shows of the machine. -/
def outcome
    {σ : Type}
    (e : Ending σ) : Outcome :=
  ⟨e.machine.stack.values, e.machine.steps, e.fault⟩

end Ending

namespace Machine

variable {σ : Type}
variable [Sink σ]
variable {c : Chunk}
variable {m : Machine}

/- The program from the offset of a machine on. -/
def program
    (c : Chunk)
    (m : Machine) : Program :=
  .decode m.offset (c.code.toList.drop m.offset)

/- How the program goes on from the state of a machine. -/
def expected
    (c : Chunk)
    (m : Machine) : Outcome :=
  (m.program c).exec c m.config.stepLimit m.steps
    m.stack.values

/- A step that the limit refuses. -/
theorem expected_of_refused
    {cause : Cause}
    (hRefused : m.refusal? = some cause) :
    m.expected c =
      ⟨m.stack.values, m.steps,
        some ⟨cause, m.offset, c.position? m.offset⟩⟩ := by
  rw [refusal?_eq] at hRefused
  unfold expected program
  rcases Program.exists_token_or_tail
      (c.code.toList.drop m.offset) with
    ⟨token, rest, hCode⟩ | ⟨tail, hStarts⟩
  · rw [hCode, Program.decode_token_append]
    exact Program.exec_cons_of_refused hRefused
  · rw [Program.decode_tail _ hStarts]
    exact Program.exec_tail_of_refused hRefused

/- The code behind a token is the rest of the program. -/
theorem program_of_token
    {token : Token}
    {rest : List UInt8}
    (hCode :
      c.code.toList.drop m.offset = token.bytes ++ rest) :
    m.program c =
      (Program.decode (m.offset + token.width)
        (c.code.toList.drop
          (m.offset + token.width))).cons
        m.offset token := by
  have hRest :
      c.code.toList.drop (m.offset + token.width) =
        rest := by
    rw [← List.drop_drop, hCode]
    exact List.drop_left
  rw [program, hRest, hCode, Program.decode_token_append]

/-
  A step that is allowed does what the effect of the token
  at the offset says: it goes on with the values that the
  effect gives, or it stops and leaves the stack alone.
-/
theorem step_of_token
    {token : Token}
    {rest : List UInt8}
    (hAllowed : m.refusal? = none)
    (hCode :
      c.code.toList.drop m.offset = token.bytes ++ rest) :
    match token.effect c.constants.toList
      m.stack.values with
    | .ok values =>
        ∃ stack : Stack,
          stack.values = values ∧
            m.step c =
              .next
                { m.started (m.offset + token.width) with
                  stack := stack }
    | .error none =>
        m.step c =
          .returned (m.started (m.offset + token.width))
    | .error (some cause) =>
        m.step c =
          .failed cause
            (m.started (m.offset + token.width)) := by
  have hFetch := Chunk.fetch_token hCode
  cases hResolve : token.resolve c.constants.toList with
  | error cause =>
      rw [hResolve] at hFetch
      rw [Token.effect_of_resolve_error hResolve]
      exact step_of_fetch_error hAllowed hFetch
  | ok i =>
      rw [hResolve] at hFetch
      by_cases hRet : i = .ret
      · subst hRet
        rw [Token.effect_of_resolve_ret hResolve]
        exact step_of_fetch_ret hAllowed hFetch
      · rw [Token.effect_of_resolve_ok hResolve hRet]
        cases hExecute : i.execute m.stack with
        | error cause =>
            exact step_of_execute_error hAllowed hFetch
              hExecute
        | ok stack =>
            exact ⟨stack, rfl,
              step_of_execute_ok hAllowed hFetch hRet
                hExecute⟩

/- A step that is allowed fails where there is a tail. -/
theorem step_of_tail
    {tail : Tail}
    (hAllowed : m.refusal? = none)
    (hStarts :
      tail.Starts (c.code.toList.drop m.offset)) :
    m.step c =
      .failed (tail.cause m.offset)
        (m.started (c.fetch m.offset).2) := by
  apply step_of_fetch_error hAllowed
  rw [← Chunk.fetch_tail hStarts]

/- A step that goes on takes one token with its effect. -/
theorem exists_token_of_next
    {m' : Machine}
    (hStep : m.step c = .next m') :
    ∃ (token : Token) (rest : List UInt8),
      c.code.toList.drop m.offset = token.bytes ++ rest ∧
        m'.offset = m.offset + token.width ∧
        token.effect c.constants.toList m.stack.values =
          .ok m'.stack.values := by
  cases hRefusal : m.refusal? with
  | some cause =>
      rw [step_of_refused hRefusal] at hStep
      cases hStep
  | none =>
      rcases Program.exists_token_or_tail
          (c.code.toList.drop m.offset) with
        ⟨token, rest, hCode⟩ | ⟨tail, hStarts⟩
      · have hToken := step_of_token hRefusal hCode
        cases hEffect :
            token.effect c.constants.toList
              m.stack.values with
        | ok values =>
            rw [hEffect] at hToken
            rcases hToken with ⟨stack, hValues, hNext⟩
            rw [hNext] at hStep
            cases hStep
            refine ⟨token, rest, hCode, rfl, ?_⟩
            rw [hEffect, ← hValues]
        | error stop =>
            rw [hEffect] at hToken
            cases stop <;>
              rw [hToken] at hStep <;>
              cases hStep
      · rw [step_of_tail hRefusal hStarts] at hStep
        cases hStep

/-
  One step of the machine is one step of the program. The
  cases are those of the next token: its effect decides both
  in the same way.
-/
theorem expected_step
    (c : Chunk)
    (m : Machine) :
    match m.step c with
    | .next m' => m.expected c = m'.expected c
    | .returned m' =>
        m.expected c = ⟨m'.stack.values, m'.steps, none⟩
    | .failed cause m' =>
        m.expected c =
          ⟨m'.stack.values, m'.steps,
            some
              ⟨cause, m.offset,
                c.position? m.offset⟩⟩ := by
  cases hRefusal : m.refusal? with
  | some cause =>
      rw [step_of_refused hRefusal]
      exact expected_of_refused hRefusal
  | none =>
      have hAllowed := hRefusal
      rw [refusal?_eq] at hAllowed
      rcases Program.exists_token_or_tail
          (c.code.toList.drop m.offset) with
        ⟨token, rest, hCode⟩ | ⟨tail, hStarts⟩
      · have hStep := step_of_token hRefusal hCode
        rw [expected, program_of_token hCode]
        cases hEffect :
            token.effect c.constants.toList
              m.stack.values with
        | ok values =>
            rw [hEffect] at hStep
            rcases hStep with ⟨stack, hValues, hNext⟩
            subst hValues
            rw [hNext]
            exact Program.exec_cons_of_ok hAllowed hEffect
        | error stop =>
            rw [hEffect] at hStep
            cases stop with
            | none =>
                rw [hStep]
                exact Program.exec_cons_of_stop hAllowed
                  hEffect
            | some cause =>
                rw [hStep]
                exact Program.exec_cons_of_stop hAllowed
                  hEffect
      · rw [expected, program,
          Program.decode_tail _ hStarts,
          step_of_tail hRefusal hStarts]
        exact Program.exec_tail hAllowed

/- A run ends as the program does that starts there. -/
theorem run_outcome
    (c : Chunk)
    (t : Tracer σ)
    (m : Machine) :
    (run c t m).outcome = m.expected c := by
  induction m using induction_forward (c := c)
    generalizing t with
  | step m ih =>
      have hExpected := expected_step c m
      cases hStep : m.step c with
      | next m' =>
          rw [hStep] at hExpected
          rw [run_of_next hStep, ih m' hStep]
          exact hExpected.symm
      | returned m' =>
          rw [hStep] at hExpected
          rw [run_of_returned hStep]
          exact hExpected.symm
      | failed cause m' =>
          rw [hStep] at hExpected
          rw [run_of_failed hStep]
          exact hExpected.symm

end Machine

end Abacus

------------------------------------------------------------
-- Interpretations
------------------------------------------------------------

namespace Abacus

namespace Interpretation

/- What an interpretation shows of the machine. -/
def outcome
    {σ : Type}
    (i : Interpretation σ) : Outcome :=
  ⟨i.machine.stack.values, i.machine.steps,
    i.machine.fault⟩

end Interpretation

namespace Machine

variable {σ : Type}
variable [Sink σ]

/- A machine interprets a chunk as its program says. -/
theorem interpret_outcome
    (m : Machine)
    (c : Chunk)
    (sink : σ) :
    (m.interpret c sink).outcome =
      c.outcome m.config.stepLimit := by
  calc
    (m.interpret c sink).outcome
        = (run c (m.opened c sink) m.reset).outcome := by
          rw [Interpretation.outcome, interpret_machine]
          rfl
    _ = m.reset.expected c := run_outcome c _ m.reset
    _ = c.outcome m.config.stepLimit := by
          simp [expected, program, reset, Chunk.outcome]

/- The verdict tells whether there is a fault. -/
theorem interpret_verdict
    (m : Machine)
    (c : Chunk)
    (sink : σ) :
    (m.interpret c sink).verdict =
      (m.interpret c sink).outcome.verdict := by
  have hVerdict :
      (m.interpret c sink).verdict =
        ((run c (m.opened c sink) m.reset).machine.close
          (run c (m.opened c sink) m.reset).fault).1 :=
    rfl
  rw [hVerdict, Interpretation.outcome, interpret_machine]
  cases (run c (m.opened c sink) m.reset).fault <;> rfl

/-
  Whatever a machine did before, its run of a chunk ends,
  and all that it shows is what the execution of the decoded
  program gives.
-/
theorem interpret_refines_outcome
    (m : Machine)
    (c : Chunk)
    (sink : σ) :
    (∀ t : Tracer σ,
        runWithin c (c.size + 1) t m.reset =
          some (run c t m.reset)) ∧
      (m.interpret c sink).verdict =
        (c.outcome m.config.stepLimit).verdict ∧
      (m.interpret c sink).machine.stack.toList =
        (c.outcome m.config.stepLimit).values.reverse ∧
      (m.interpret c sink).machine.stack.top? =
        (c.outcome m.config.stepLimit).values.head? ∧
      (m.interpret c sink).machine.fault =
        (c.outcome m.config.stepLimit).fault ∧
      (m.interpret c sink).machine.steps =
        (c.outcome m.config.stepLimit).steps ∧
      ((m.interpret c sink).verdict = .runtimeError ↔
        (m.interpret c sink).machine.fault.isSome) ∧
      (m.interpret c sink).verdict ≠ .compileError := by
  have hVerdict := interpret_verdict m c sink
  rw [← interpret_outcome m c sink]
  refine ⟨?_, hVerdict, ?_, ?_, rfl, rfl, ?_, ?_⟩
  · intro t
    apply runWithin_eq_run
    simp [reset]
  · exact (Stack.reverse_values _).symm
  · exact Stack.top?_eq_head? _
  · rw [hVerdict]
    simp only [Outcome.verdict, Interpretation.outcome]
    cases (m.interpret c sink).machine.fault <;> simp
  · rw [hVerdict]
    simp only [Outcome.verdict]
    cases (m.interpret c sink).outcome.fault <;> simp

/- One divided by four, and a negation of nothing. -/
example :
    Chunk.outcome
          { code := #[0, 0, 0, 1, 5, 6]
            constants := #[1, 4] }
          none =
        ⟨[Number.ofFloat 0.25], 4, none⟩ ∧
      Chunk.outcome { code := #[1] } none =
        ⟨[], 1, some ⟨.stackUnderflow, 0, none⟩⟩ := by
  decide +kernel

end Machine

end Abacus
