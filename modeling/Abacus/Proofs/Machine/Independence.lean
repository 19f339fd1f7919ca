import Abacus.Chunk.Demo
import Abacus.Proofs.Machine.Trace

/-
  What a run does not depend on.

  Neither the trace, nor the sink that it is written to, nor
  what a machine did before has any influence on how a chunk
  is executed. A machine that interprets one chunk after the
  other shows of each what a new machine would show, and
  keeps its settings.

  Main declarations:
    * `Machine.config_interpret`
    * `Event.apartFromTrace`
    * `Machine.interpret_ignores_trace`
    * `Machine.interpretEach`
    * `Machine.interpretEach_isolated`
-/

------------------------------------------------------------
-- Settings
------------------------------------------------------------

namespace Abacus

namespace Machine

variable {σ : Type}
variable [Sink σ]

/- A run keeps the settings. -/
theorem config_run
    (c : Chunk)
    (t : Tracer σ)
    (m : Machine) :
    (run c t m).machine.config = m.config := by
  induction m using induction_forward (c := c)
    generalizing t with
  | step m ih =>
      have hCase := step_case c m
      cases hStep : m.step c with
      | next m' =>
          rw [run_of_next hStep, ih m' hStep]
          exact config_of_step_next hStep
      | returned m' =>
          rw [run_of_returned hStep]
          rw [hStep] at hCase
          cases hCase
          rfl
      | failed cause m' =>
          rw [run_of_failed hStep]
          rw [hStep] at hCase
          cases hCase <;> rfl

/- So does an interpretation. -/
theorem config_interpret
    (m : Machine)
    (c : Chunk)
    (sink : σ) :
    (m.interpret c sink).machine.config = m.config := by
  rw [interpret_machine]
  exact config_run c _ m.reset

end Machine

end Abacus

------------------------------------------------------------
-- Logs Without The Trace
------------------------------------------------------------

namespace Abacus

namespace Event

/-
  What an event tells apart from the trace. The start of a
  run tells its flag, which is dropped here; that the trace
  was turned off is nothing but news of the trace.
-/
def apartFromTrace :
    Event → Option Event
| .interpreting codeSize poolSize _ =>
    some (.interpreting codeSize poolSize false)
| .traceDisabled _ => none
| e => some e

/- Warnings of the trace tell nothing else. -/
theorem filterMap_apartFromTrace_warnings
    (reasons : List String) :
    (reasons.map traceDisabled).filterMap apartFromTrace =
      [] := by
  induction reasons with
  | nil => rfl
  | cons reason reasons ih =>
      rw [List.map_cons, List.filterMap_cons_none rfl]
      exact ih

end Event

namespace Outcome

/- The end of a run is not about the trace. -/
theorem apartFromTrace_closing
    (o : Outcome) :
    o.closing.apartFromTrace = some o.closing := by
  unfold closing
  cases o.fault <;> rfl

end Outcome

namespace Chunk

variable {σ : Type}
variable [Sink σ]

/-
  Apart from the trace, the log of a run tells the size of
  the chunk and the outcome.
-/
theorem log_account_apartFromTrace
    (c : Chunk)
    (config : Config)
    (sink : σ) :
    (c.account config sink).log.filterMap
        Event.apartFromTrace =
      [.interpreting c.size c.constants.size false,
        (c.outcome config.stepLimit).closing] := by
  have hOpening :
      (Event.interpreting c.size c.constants.size
          config.trace).apartFromTrace =
        some
          (.interpreting c.size c.constants.size false) :=
    rfl
  have hClosing :=
    (c.outcome config.stepLimit).apartFromTrace_closing
  unfold account
  simp only [List.filterMap_cons_some hOpening,
    List.filterMap_append,
    Event.filterMap_apartFromTrace_warnings,
    List.filterMap_cons_some hClosing, List.filterMap_nil,
    List.nil_append]

/- Without a trace there is nothing to write. -/
theorem texts_of_off
    (c : Chunk)
    {config : Config}
    (hOff : config.trace = false) :
    c.texts config = [] := by
  simp [texts, hOff]

end Chunk

end Abacus

------------------------------------------------------------
-- The Trace Has No Influence
------------------------------------------------------------

namespace Abacus

/- A sink that takes nothing and counts the attempts. -/
structure ClosedSink where
  attempts : Nat := 0
deriving DecidableEq

instance : Sink ClosedSink where
  write sink _ :=
    (⟨sink.attempts + 1⟩, some "closed")

namespace Machine

/-
  Two runs of a chunk under one step limit end in the same
  way, whether they are traced or not, wherever the trace
  goes, and whatever the machines did before. Their logs
  differ only in what is said of the trace: its flag at the
  start, and at most one warning between start and end. A
  run that is not traced leaves its sink alone.
-/
theorem interpret_ignores_trace
    {σ τ : Type}
    [Sink σ]
    [Sink τ]
    (m n : Machine)
    (hLimit : m.config.stepLimit = n.config.stepLimit)
    (c : Chunk)
    (sink : σ)
    (other : τ) :
    (m.interpret c sink).verdict =
        (n.interpret c other).verdict ∧
      (m.interpret c sink).machine.stack.toList =
        (n.interpret c other).machine.stack.toList ∧
      (m.interpret c sink).machine.fault =
        (n.interpret c other).machine.fault ∧
      (m.interpret c sink).machine.steps =
        (n.interpret c other).machine.steps ∧
      (m.interpret c sink).log.filterMap
          Event.apartFromTrace =
        (n.interpret c other).log.filterMap
          Event.apartFromTrace ∧
      (∃ warning : Option String,
        (m.interpret c sink).log =
          .interpreting c.size c.constants.size
              m.config.trace ::
            (warning.toList.map .traceDisabled ++
              [(m.interpret c sink).outcome.closing])) ∧
      (m.config.trace = false →
        (m.interpret c sink).sink = sink ∧
          (m.interpret c sink).log =
            [.interpreting c.size c.constants.size false,
              (m.interpret c sink).outcome.closing]) := by
  have hOutcome :
      (m.interpret c sink).outcome =
        (n.interpret c other).outcome := by
    rw [interpret_outcome, interpret_outcome, hLimit]
  have hLog := interpret_log m c sink
  refine ⟨?_, ?_, congrArg Outcome.fault hOutcome,
    congrArg Outcome.steps hOutcome, ?_, ?_, ?_⟩
  · rw [interpret_verdict, interpret_verdict, hOutcome]
  · rw [← Stack.reverse_values, ← Stack.reverse_values]
    exact
      congrArg (fun o => o.values.reverse) hOutcome
  · rw [hLog, interpret_log,
      Chunk.log_account_apartFromTrace,
      Chunk.log_account_apartFromTrace, hLimit]
  · rw [hLog, interpret_outcome]
    exact ⟨_, rfl⟩
  · intro hOff
    have hSink :=
      congrArg Account.sink (interpret_account m c sink)
    have hTexts := c.texts_of_off hOff
    rw [hLog, interpret_outcome]
    unfold Chunk.account at hSink ⊢
    rw [hTexts] at hSink ⊢
    refine ⟨hSink, ?_⟩
    rw [hOff]
    rfl

/-
  The demonstration chunk, traced to a closed sink by a new
  machine, and run untraced by one that met an underflow
  before. Nothing is written to the second sink.
-/
theorem interpret_ignores_trace_closed :
    let traced := Machine.new { trace := true }
    let used :=
      ((Machine.new {}).interpret
        { code := #[0, 0, 2], constants := #[7] }
        ({} : ClosedSink)).machine
    traced.config.stepLimit = used.config.stepLimit ∧
      used.config.trace = false ∧
      (traced.interpret Chunk.demo
          ({} : ClosedSink)).machine.stack.toList =
        (used.interpret Chunk.demo
          ({} : ClosedSink)).machine.stack.toList ∧
      (used.interpret Chunk.demo
        ({} : ClosedSink)).sink.attempts = 0 := by
  intro traced used
  have hConfig : used.config = {} := config_interpret _ _ _
  have hLimit :
      traced.config.stepLimit = used.config.stepLimit := by
    rw [hConfig]
    rfl
  have hOff : used.config.trace = false := by
    rw [hConfig]
  have hTraced :=
    interpret_ignores_trace traced used hLimit Chunk.demo
      ({} : ClosedSink) ({} : ClosedSink)
  have hUsed :=
    interpret_ignores_trace used traced hLimit.symm
      Chunk.demo ({} : ClosedSink) ({} : ClosedSink)
  rcases hUsed with ⟨_, _, _, _, _, _, hUntouched⟩
  refine ⟨hLimit, hOff, hTraced.2.1, ?_⟩
  rw [(hUntouched hOff).1]

end Machine

end Abacus

------------------------------------------------------------
-- One Run After The Other
------------------------------------------------------------

namespace Abacus

namespace Machine

variable {σ : Type}
variable [Sink σ]

/- Interpret chunks one after the other on one machine. -/
def interpretEach
    (m : Machine) :
    List (Chunk × σ) → List (Interpretation σ)
| [] => []
| (c, sink) :: runs =>
    m.interpret c sink ::
      (m.interpret c sink).machine.interpretEach runs

/- A used machine shows what a new one would. -/
theorem interpret_account_new
    (m : Machine)
    (c : Chunk)
    (sink : σ) :
    (m.interpret c sink).account =
      ((Machine.new m.config).interpret c sink).account := by
  rw [interpret_account, interpret_account]
  rfl

/-
  Of each of several runs on one machine a caller sees what
  a new machine with the same settings would show, whatever
  the runs before it did. The settings never change.
-/
theorem interpretEach_isolated
    (m : Machine)
    (runs : List (Chunk × σ)) :
    (m.interpretEach runs).map Interpretation.account =
        runs.map
          (fun run =>
            ((Machine.new m.config).interpret run.1
              run.2).account) ∧
      (m.interpretEach runs).map (fun i => i.machine.config) =
        runs.map (fun _ => m.config) := by
  induction runs generalizing m with
  | nil => exact ⟨rfl, rfl⟩
  | cons run runs ih =>
      rcases run with ⟨c, sink⟩
      rcases ih (m.interpret c sink).machine with
        ⟨hAccounts, hConfigs⟩
      have hConfig := config_interpret m c sink
      rw [hConfig] at hAccounts hConfigs
      constructor
      · rw [interpretEach, List.map_cons, List.map_cons,
          hAccounts, interpret_account_new]
      · rw [interpretEach, List.map_cons, List.map_cons,
          hConfigs, hConfig]

end Machine

end Abacus
