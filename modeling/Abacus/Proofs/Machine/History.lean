import Abacus.Proofs.Machine.Steps

/-
  The history of a run.

  A run is a chain of steps that go on, and a last step that
  returns or fails. Its history holds the machines at which
  these steps begin, the first one first.

  Main declarations:
    * `Machine.induction_forward`
    * `Machine.history`
    * `Machine.holds_of_mem_history`
    * `Machine.run_tracer`
    * `Machine.run_of_getLast_history`
    * `Machine.fault_of_failed_mem_history`
    * `Machine.runWithin_eq_run`
    * `Machine.interpret_machine`
    * `Machine.verdict_of_fault`
-/

------------------------------------------------------------
-- Histories
------------------------------------------------------------

namespace Abacus

namespace Machine

variable {c : Chunk}

/-
  What holds of a machine if it holds of the next one holds
  of every machine: a run moves forward within the code.
-/
theorem induction_forward
    {motive : Machine → Prop}
    (step :
      ∀ m : Machine,
        (∀ m', m.step c = .next m' → motive m') →
          motive m)
    (m : Machine) :
    motive m := by
  induction hRest : c.size - m.offset using
    Nat.strongRecOn generalizing m with
  | ind rest ih =>
      apply step
      intro m' hNext
      have hForward := step_next_forward hNext
      exact ih (c.size - m'.offset) (by omega) m' rfl

/- The machines at which the steps of a run begin. -/
def history
    (c : Chunk)
    (m : Machine) : List Machine :=
  match _h : m.step c with
  | .next m' => m :: history c m'
  | .returned _ => [m]
  | .failed _ _ => [m]
termination_by c.size - m.offset
decreasing_by
  have hForward := step_next_forward _h
  omega

theorem history_of_next
    {m m' : Machine}
    (h : m.step c = .next m') :
    m.history c = m :: m'.history c := by
  rw [history]
  split <;> simp_all

theorem history_of_last
    {m : Machine}
    (h : ∀ m', m.step c ≠ .next m') :
    m.history c = [m] := by
  rw [history]
  split <;> simp_all

/- A history starts with its machine. -/
theorem history_eq_cons
    (c : Chunk)
    (m : Machine) :
    ∃ rest, m.history c = m :: rest := by
  cases hStep : m.step c with
  | next m' => exact ⟨_, history_of_next hStep⟩
  | returned m' =>
      exact ⟨[], history_of_last (by simp [hStep])⟩
  | failed cause m' =>
      exact ⟨[], history_of_last (by simp [hStep])⟩

/-
  What holds at the start of a run, and is kept by each step
  that goes on, holds at every step of the run.
-/
theorem holds_of_mem_history
    {P : Machine → Prop}
    (hNext :
      ∀ s s', s.step c = .next s' → P s → P s')
    {m s : Machine}
    (hStart : P m)
    (hMem : s ∈ m.history c) :
    P s := by
  induction m using induction_forward (c := c) with
  | step m ih =>
      cases hStep : m.step c with
      | next m' =>
          rw [history_of_next hStep, List.mem_cons] at hMem
          rcases hMem with hHere | hThere
          · rw [hHere]
            exact hStart
          · exact ih m' hStep (hNext m m' hStep hStart)
              hThere
      | _ =>
          rw [history_of_last (by simp [hStep]),
            List.mem_singleton] at hMem
          rw [hMem]
          exact hStart

/- A step that goes on keeps the settings. -/
theorem config_of_step_next
    {m m' : Machine}
    (h : m.step c = .next m') :
    m'.config = m.config := by
  have hCase := step_case c m
  rw [h] at hCase
  cases hCase
  rfl

/- So does a run. -/
theorem config_of_mem_history
    {m s : Machine}
    (hMem : s ∈ m.history c) :
    s.config = m.config := by
  refine holds_of_mem_history
    (P := fun s => s.config = m.config) ?_ rfl hMem
  intro s s' hStep hSame
  exact (config_of_step_next hStep).trans hSame

/- A step that does not go on is the last one. -/
theorem getLast?_history_of_mem
    {m s : Machine}
    (hMem : s ∈ m.history c)
    (hLast : ∀ s', s.step c ≠ .next s') :
    (m.history c).getLast? = some s := by
  induction m using induction_forward (c := c) with
  | step m ih =>
      cases hStep : m.step c with
      | next m' =>
          rcases history_eq_cons c m' with ⟨rest, hCons⟩
          rw [history_of_next hStep, List.mem_cons] at hMem
          rcases hMem with hHere | hThere
          · subst hHere
            exact absurd hStep (hLast m')
          · rw [history_of_next hStep, hCons,
              List.getLast?_cons_cons, ← hCons]
            exact ih m' hStep hThere
      | _ =>
          rw [history_of_last (by simp [hStep]),
            List.mem_singleton] at hMem
          rw [history_of_last (by simp [hStep]), hMem]
          rfl

------------------------------------------------------------
-- Histories And Runs
------------------------------------------------------------

variable {σ : Type}
variable [Sink σ]

/- A run observes the machines of its history in order. -/
theorem run_tracer
    (c : Chunk)
    (t : Tracer σ)
    (m : Machine) :
    (run c t m).tracer =
      (m.history c).foldl (fun t s => t.observe c s) t := by
  induction m using induction_forward (c := c)
    generalizing t with
  | step m ih =>
      cases hStep : m.step c with
      | next m' =>
          rw [run_of_next hStep, history_of_next hStep,
            List.foldl_cons]
          exact ih m' hStep _
      | returned m' =>
          rw [run_of_returned hStep,
            history_of_last (by simp [hStep])]
          rfl
      | failed cause m' =>
          rw [run_of_failed hStep,
            history_of_last (by simp [hStep])]
          rfl

/-
  A run ends with the step of the last machine of its
  history, which returns or fails.
-/
theorem run_of_getLast_history
    (c : Chunk)
    (t : Tracer σ)
    (m : Machine) :
    ∃ last ∈ (m.history c).getLast?,
      ((run c t m).fault = none ∧
          last.step c = .returned (run c t m).machine) ∨
        ∃ cause,
          (run c t m).fault =
              some
                ⟨cause, last.offset,
                  c.position? last.offset⟩ ∧
            last.step c =
              .failed cause (run c t m).machine := by
  induction m using induction_forward (c := c)
    generalizing t with
  | step m ih =>
      cases hStep : m.step c with
      | next m' =>
          rcases history_eq_cons c m' with ⟨rest, hCons⟩
          have hRest := ih m' hStep (t.observe c m)
          rw [run_of_next hStep, history_of_next hStep, hCons,
            List.getLast?_cons_cons, ← hCons]
          exact hRest
      | returned m' =>
          rw [run_of_returned hStep,
            history_of_last (by simp [hStep])]
          exact ⟨m, rfl, .inl ⟨rfl, hStep⟩⟩
      | failed cause m' =>
          rw [run_of_failed hStep,
            history_of_last (by simp [hStep])]
          exact ⟨m, rfl, .inr ⟨cause, rfl, hStep⟩⟩

/- A step of the history that fails is the fault of the run. -/
theorem fault_of_failed_mem_history
    (t : Tracer σ)
    {m s s' : Machine}
    {cause : Cause}
    (hMem : s ∈ m.history c)
    (hStep : s.step c = .failed cause s') :
    (run c t m).fault =
      some ⟨cause, s.offset, c.position? s.offset⟩ := by
  have hLast :=
    getLast?_history_of_mem hMem (by simp [hStep])
  rcases run_of_getLast_history c t m with
    ⟨last, hFound, hRun⟩
  rw [hLast] at hFound
  cases hFound
  rw [hStep] at hRun
  rcases hRun with ⟨_, hReturned⟩ | ⟨found, hFault, hSame⟩
  · cases hReturned
  · cases hSame
    exact hFault

------------------------------------------------------------
-- Bounded Runs
------------------------------------------------------------

/- Take at most `fuel` steps, and give nothing if more are left. -/
def runWithin
    (c : Chunk) :
    Nat → Tracer σ → Machine → Option (Ending σ)
| 0, _, _ => none
| fuel + 1, t, m =>
    match m.step c with
    | .next m' => runWithin c fuel (t.observe c m) m'
    | .returned m' => some ⟨m', t.observe c m, none⟩
    | .failed cause m' =>
        some
          ⟨m', t.observe c m,
            some ⟨cause, m.offset, c.position? m.offset⟩⟩

/-
  A run needs at most one step for each byte that is left,
  and one more.
-/
theorem runWithin_eq_run
    {fuel : Nat}
    (t : Tracer σ)
    {m : Machine}
    (hFuel : c.size - m.offset < fuel) :
    runWithin c fuel t m = some (run c t m) := by
  induction fuel generalizing t m with
  | zero => omega
  | succ fuel ih =>
      unfold runWithin
      cases hStep : m.step c with
      | next m' =>
          have hForward := step_next_forward hStep
          rw [run_of_next hStep]
          exact ih _ (by omega)
      | returned m' => simp [run_of_returned hStep]
      | failed cause m' => simp [run_of_failed hStep]

------------------------------------------------------------
-- Interpretations
------------------------------------------------------------

/- The tracer at the start of an interpretation. -/
def opened
    (m : Machine)
    (c : Chunk)
    (sink : σ) : Tracer σ where
  sink := sink
  on := m.config.trace
  log :=
    [.interpreting c.size c.constants.size m.config.trace]

/- An interpretation is a run of the reset machine. -/
theorem interpret_machine
    (m : Machine)
    (c : Chunk)
    (sink : σ) :
    (m.interpret c sink).machine =
      { (run c (m.opened c sink) m.reset).machine with
        fault :=
          (run c (m.opened c sink) m.reset).fault } :=
  rfl

/- Its verdict depends on whether there is a fault. -/
theorem verdict_of_fault
    (m : Machine)
    (c : Chunk)
    (sink : σ) :
    (m.interpret c sink).verdict =
      if (run c (m.opened c sink) m.reset).fault.isSome then
        .runtimeError
      else
        .ok := by
  change ((run c (m.opened c sink) m.reset).machine.close
    (run c (m.opened c sink) m.reset).fault).1 = _
  cases (run c (m.opened c sink) m.reset).fault <;> rfl

end Machine

end Abacus
