import Abacus.CommandLine.Program
import Abacus.Proofs.Sink.Limited

/-
  The output of the program on a sink that may fail.

  The program has up to three parts to write: a listing, a
  trace and a result. A listing that is not written ends it;
  a trace that is not written is given up while the run goes
  on; a result that is not written is reported, but only a
  run without a fault has one. In each case the sink holds
  the first bytes of the whole output.

  Main declarations:
    * `Options.limitIn` and `Options.isTraced`
    * `Program.fullOutput`
    * `Program.verdict_demonstration_iff`
    * `Program.run_on_limited_sink`
-/

------------------------------------------------------------
-- Settings In Force
------------------------------------------------------------

namespace Abacus

namespace Config

/- The environment gives a limit if there is a numeral. -/
theorem fst_stepLimitOf
    (raw? : Option String) :
    (stepLimitOf raw?).1 =
      raw?.bind fun raw => (readStepLimit raw).toOption := by
  cases raw? with
  | none => rfl
  | some raw =>
      rw [Option.bind_some, stepLimitOf]
      cases readStepLimit raw <;> rfl

end Config

namespace Options

/-
  The step limit that is in force: that of the options, or
  else that of the environment if it can be read.
-/
def limitIn
    (options : Options)
    (lookup : String → Option String) : Option Nat :=
  match options.stepLimit with
  | some limit => some limit
  | none =>
      (lookup Config.stepLimitVariable).bind fun raw =>
        (Config.readStepLimit raw).toOption

/- Whether the options or the environment ask for a trace. -/
def isTraced
    (options : Options)
    (lookup : String → Option String) : Bool :=
  options.trace ||
    (lookup Config.traceVariable).any Config.isOn

/- The settings that are in force. -/
def inForce
    (options : Options)
    (lookup : String → Option String) : Config where
  trace := options.isTraced lookup
  stepLimit := options.limitIn lookup

/- The machine of the program has the settings in force. -/
theorem config_ofVariables
    (options : Options)
    (lookup : String → Option String) :
    options.config (Config.ofVariables lookup).1 =
      options.inForce lookup := by
  have hLimit :=
    Config.fst_stepLimitOf (lookup Config.stepLimitVariable)
  unfold config inForce limitIn
  cases hGiven : options.stepLimit with
  | some limit => rfl
  | none =>
      rw [← hLimit]
      rfl

end Options

end Abacus

------------------------------------------------------------
-- Demonstration
------------------------------------------------------------

namespace Abacus

namespace Chunk

/-
  A chunk that runs to its end without a limit fails with
  one exactly if it takes more steps.
-/
theorem verdict_outcome_iff
    {c : Chunk}
    (hOk : (c.outcome none).verdict = .ok)
    (limit : Option Nat) :
    (c.outcome limit).verdict = .runtimeError ↔
      ∃ l, limit = some l ∧ l < (c.outcome none).steps := by
  constructor
  · intro hFails
    cases limit with
    | none =>
        rw [hOk] at hFails
        cases hFails
    | some l =>
        refine ⟨l, rfl, Nat.lt_of_not_le ?_⟩
        intro hEnough
        have hSame : c.outcome (some l) = c.outcome none :=
          Program.exec_of_enough _ hEnough
        rw [hSame, hOk] at hFails
        cases hFails
  · rintro ⟨l, rfl, hShort⟩
    rcases Program.exec_of_short _ (Nat.zero_le l)
        hShort with
      ⟨s, -, hCut⟩
    rw [outcome, hCut]
    rfl

/- If it does not fail, the limit made no difference. -/
theorem outcome_of_verdict_ne
    {c : Chunk}
    {limit : Option Nat}
    (hOk : (c.outcome none).verdict = .ok)
    (hRuns : (c.outcome limit).verdict ≠ .runtimeError) :
    c.outcome limit = c.outcome none := by
  cases limit with
  | none => rfl
  | some l =>
      apply Program.exec_of_enough
      apply Nat.le_of_not_lt
      intro hShort
      exact hRuns
        ((verdict_outcome_iff hOk (some l)).mpr
          ⟨l, rfl, hShort⟩)

end Chunk

namespace Program

/- The traced demonstration on a sink that takes all. -/
def demonstration
    (limit : Option Nat) : Interpretation ByteSink :=
  (Machine.new
      { trace := true, stepLimit := limit }).interpret
    Chunk.demo ({} : ByteSink)

/- Without a limit the demonstration runs to its end. -/
theorem verdict_demo :
    (Chunk.demo.outcome none).verdict = .ok := by
  decide +kernel

/- It takes six steps. -/
theorem steps_demo :
    (Chunk.demo.outcome none).steps = 6 := by
  decide +kernel

/- It leaves a value. -/
theorem isSome_head_demo :
    (Chunk.demo.outcome none).values.head?.isSome := by
  decide +kernel

/- Neither its sink nor its trace has a part in a verdict. -/
theorem verdict_interpret_demo
    {σ : Type}
    [Sink σ]
    (config : Config)
    (sink : σ) :
    ((Machine.new config).interpret Chunk.demo
        sink).verdict =
      (demonstration config.stepLimit).verdict := by
  rw [demonstration, Machine.interpret_verdict,
    Machine.interpret_verdict, Machine.interpret_outcome,
    Machine.interpret_outcome]
  rfl

/- Nor in what is on top of the stack. -/
theorem top?_interpret_demo
    {σ : Type}
    [Sink σ]
    (config : Config)
    (sink : σ) :
    ((Machine.new config).interpret Chunk.demo
        sink).machine.stack.top? =
      (demonstration
        config.stepLimit).machine.stack.top? := by
  have hTop :=
    congrArg Account.top
      (Machine.interpret_account (Machine.new config)
        Chunk.demo sink)
  have hDemo :=
    congrArg Account.top
      (Machine.interpret_account
        (Machine.new
          { trace := true, stepLimit := config.stepLimit })
        Chunk.demo ({} : ByteSink))
  exact hTop.trans hDemo.symm

/- The demonstration faults only by a limit below six. -/
theorem verdict_demonstration_iff
    (limit : Option Nat) :
    (demonstration limit).verdict = .runtimeError ↔
      ∃ l, limit = some l ∧ l < 6 := by
  rw [demonstration, Machine.interpret_verdict,
    Machine.interpret_outcome]
  have hIff := Chunk.verdict_outcome_iff verdict_demo limit
  rw [steps_demo] at hIff
  exact hIff

/- If it does not fault, it has a result. -/
theorem demonstration_of_no_fault
    {limit : Option Nat}
    (hRuns :
      (demonstration limit).verdict ≠ .runtimeError) :
    (demonstration limit).verdict = .ok ∧
      ∃ value,
        (demonstration limit).machine.stack.top? =
          some value := by
  have hOutcome :
      (demonstration limit).outcome =
        Chunk.demo.outcome limit :=
    Machine.interpret_outcome _ _ _
  have hVerdict :
      (demonstration limit).verdict =
        (Chunk.demo.outcome limit).verdict := by
    rw [← hOutcome]
    exact Machine.interpret_verdict _ _ _
  rw [hVerdict] at hRuns ⊢
  have hFree :=
    Chunk.outcome_of_verdict_ne verdict_demo hRuns
  rw [hFree]
  refine ⟨verdict_demo, ?_⟩
  have hTop :
      (demonstration limit).machine.stack.top? =
        (Chunk.demo.outcome limit).values.head? := by
    rw [← hOutcome]
    exact Stack.top?_eq_head? _
  rw [hTop, hFree]
  exact Option.isSome_iff_exists.mp isSome_head_demo

end Program

end Abacus

------------------------------------------------------------
-- Whole Output
------------------------------------------------------------

namespace Abacus

namespace Program

/- The bytes of the listing, if it is asked for. -/
def listingPart
    (options : Options) : Array UInt8 :=
  if options.disassemble then
    ByteSink.bytesOf (Chunk.demo.listing "demo")
  else
    #[]

/- The bytes of the trace, if it is on. -/
def tracePart
    (options : Options)
    (lookup : String → Option String) : Array UInt8 :=
  if options.isTraced lookup then
    (demonstration (options.limitIn lookup)).sink.held
  else
    #[]

/- The bytes of the result, if there is no fault. -/
def resultPart
    (options : Options)
    (lookup : String → Option String) : Array UInt8 :=
  let run := demonstration (options.limitIn lookup)
  if run.verdict = .ok then
    run.machine.stack.top?.elim #[] fun value =>
      ByteSink.bytesOf (Number.text value ++ "\n")
  else
    #[]

/- All that the program has to write. -/
def fullOutput
    (options : Options)
    (lookup : String → Option String) : Array UInt8 :=
  listingPart options ++ tracePart options lookup ++
    resultPart options lookup

/- What a traced run would write is the trace part. -/
theorem held_interpret_demo
    (options : Options)
    (lookup : String → Option String) :
    ((Machine.new (options.inForce lookup)).interpret
        Chunk.demo ({} : ByteSink)).sink.held =
      tracePart options lookup := by
  unfold tracePart Options.inForce
  cases options.isTraced lookup with
  | true => rfl
  | false =>
      rw [Machine.held_interpret_texts]
      simp [Machine.new, Chunk.texts, ByteSink.bytesOf]

end Program

end Abacus

------------------------------------------------------------
-- Parts On A Filled Sink
------------------------------------------------------------

namespace Abacus

namespace Program

/- A listing that is not written ends the program. -/
theorem run_of_list_failed
    {σ : Type}
    [Sink σ]
    {options : Options}
    {sink sink' : σ}
    {reason : String}
    (hList : list options sink = (sink', some reason))
    (lookup : String → Option String) :
    run options lookup sink =
      reportOutput (Config.ofVariables lookup).2
        (sink', some reason) := by
  rw [run, hList]

/- Otherwise it runs the demonstration. -/
theorem run_of_listed
    {σ : Type}
    [Sink σ]
    {options : Options}
    {sink sink' : σ}
    (hList : list options sink = (sink', none))
    (lookup : String → Option String) :
    run options lookup sink =
      conclude (Config.ofVariables lookup).2
        ((Machine.new (options.inForce lookup)).interpret
          Chunk.demo sink') := by
  rw [run, hList, ← Options.config_ofVariables]

/- The listing is written to a new sink as far as it fits. -/
theorem list_filled
    (options : Options)
    (limit : Nat)
    (failure : SinkFailure) :
    list options (ByteSink.filled limit failure #[]) =
      (ByteSink.filled limit failure (listingPart options),
        ByteSink.leftOver? limit failure #[]
          (listingPart options)) := by
  unfold list listingPart
  by_cases hAsked : options.disassemble
  · rw [if_pos hAsked, if_pos hAsked, ByteSink.write_filled,
      Array.empty_append]
  · rw [if_neg hAsked, if_neg hAsked]
    simp [ByteSink.leftOver?]

/- The line of a result has at least its line break. -/
theorem size_resultLine_pos
    (value : Number) :
    0 <
      (ByteSink.bytesOf
        (resultLine (some value))).size := by
  rw [resultLine, ByteSink.bytesOf_append,
    Array.size_append]
  exact Nat.lt_add_left _ (by decide)

/- A run that faults has no result. -/
theorem resultPart_of_fault
    {options : Options}
    {lookup : String → Option String}
    (hFaults :
      (demonstration (options.limitIn lookup)).verdict =
        .runtimeError) :
    resultPart options lookup = #[] := by
  simp [resultPart, hFaults]

/- A run that does not has the line of its result. -/
theorem resultPart_of_no_fault
    {options : Options}
    {lookup : String → Option String}
    (hRuns :
      (demonstration (options.limitIn lookup)).verdict ≠
        .runtimeError) :
    0 < (resultPart options lookup).size ∧
      resultPart options lookup =
        ByteSink.bytesOf
          (resultLine
            (demonstration
              (options.limitIn
                lookup)).machine.stack.top?) := by
  rcases demonstration_of_no_fault hRuns with
    ⟨hOk, value, hTop⟩
  have hPart :
      resultPart options lookup =
        ByteSink.bytesOf (resultLine (some value)) := by
    simp only [resultPart, hOk, hTop]
    rfl
  rw [hTop, hPart]
  exact ⟨size_resultLine_pos value, rfl⟩

/- The report on a text tells whether all of it fits. -/
theorem reportOutput_write_filled
    {text : String}
    (hPos : 0 < (ByteSink.bytesOf text).size)
    (log : List Event)
    (limit : Nat)
    (failure : SinkFailure)
    (offered : Array UInt8) :
    let report :=
      reportOutput log
        (Sink.write
          (ByteSink.filled limit failure offered) text)
    let all := offered ++ ByteSink.bytesOf text
    report.sink = ByteSink.filled limit failure all ∧
      report.status =
        if all.size ≤ limit then .success else .output := by
  intro report all
  have hFits :
      ByteSink.leftOver? limit failure offered
            (ByteSink.bytesOf text) =
          none ↔
        all.size ≤ limit :=
    ByteSink.leftOver?_eq_none_iff_of_pos hPos
  simp only [report, ← hFits]
  rw [ByteSink.write_filled]
  cases ByteSink.leftOver? limit failure offered
      (ByteSink.bytesOf text) with
  | none => exact ⟨rfl, rfl⟩
  | some reason => exact ⟨rfl, rfl⟩

/-
  A run that faults leaves its trace on the sink. Whether
  all of it fits does not count.
-/
theorem conclude_of_fault
    {options : Options}
    {lookup : String → Option String}
    (hFaults :
      (demonstration (options.limitIn lookup)).verdict =
        .runtimeError)
    (log : List Event)
    (limit : Nat)
    (failure : SinkFailure)
    (offered : Array UInt8) :
    let report :=
      conclude log
        ((Machine.new (options.inForce lookup)).interpret
          Chunk.demo
          (ByteSink.filled limit failure offered))
    report.sink =
        ByteSink.filled limit failure
          (offered ++ tracePart options lookup) ∧
      report.status = .software := by
  have hVerdict :=
    (verdict_interpret_demo (options.inForce lookup)
      (ByteSink.filled limit failure offered)).trans hFaults
  simp only [conclude, hVerdict, and_true]
  rw [Machine.sink_interpret_filled, held_interpret_demo]

/-
  A run without a fault leaves its trace and its result. If
  the trace did not fit, neither does the result.
-/
theorem conclude_of_no_fault
    {options : Options}
    {lookup : String → Option String}
    (hRuns :
      (demonstration (options.limitIn lookup)).verdict ≠
        .runtimeError)
    (log : List Event)
    (limit : Nat)
    (failure : SinkFailure)
    (offered : Array UInt8) :
    let report :=
      conclude log
        ((Machine.new (options.inForce lookup)).interpret
          Chunk.demo
          (ByteSink.filled limit failure offered))
    let all :=
      offered ++ tracePart options lookup ++
        resultPart options lookup
    report.sink = ByteSink.filled limit failure all ∧
      report.status =
        if all.size ≤ limit then .success else .output := by
  rcases resultPart_of_no_fault hRuns with ⟨hPos, hResult⟩
  have hVerdict :=
    (verdict_interpret_demo (options.inForce lookup)
      (ByteSink.filled limit failure offered)).trans
        (demonstration_of_no_fault hRuns).1
  rw [hResult] at hPos ⊢
  simp only [conclude, hVerdict]
  rw [Machine.sink_interpret_filled, held_interpret_demo,
    top?_interpret_demo]
  exact reportOutput_write_filled hPos _ _ _ _

end Program

end Abacus

------------------------------------------------------------
-- Limited Output
------------------------------------------------------------

namespace Abacus

namespace Program

/- A listing that does not fit is all that is written. -/
theorem run_of_short_listing
    {options : Options}
    {limit : Nat}
    (hShort : limit < (listingPart options).size)
    (lookup : String → Option String)
    (failure : SinkFailure) :
    let report :=
      run options lookup
        (ByteSink.filled limit failure #[])
    report.sink =
        ByteSink.filled limit failure
          (fullOutput options lookup) ∧
      report.status = .output := by
  have hRefused :
      ByteSink.leftOver? limit failure #[]
          (listingPart options) =
        some failure.message := by
    apply ByteSink.leftOver?_of_rest
    rw [Array.size_empty]
    omega
  have hList := list_filled options limit failure
  rw [hRefused] at hList
  rw [run_of_list_failed hList, fullOutput,
    Array.append_assoc,
    ByteSink.filled_of_full (Nat.le_of_lt hShort)]
  exact ⟨rfl, rfl⟩

/- After a listing that fits the demonstration is run. -/
theorem run_of_room
    {options : Options}
    {limit : Nat}
    (hRoom : ¬limit < (listingPart options).size)
    (lookup : String → Option String)
    (failure : SinkFailure) :
    run options lookup
        (ByteSink.filled limit failure #[]) =
      conclude (Config.ofVariables lookup).2
        ((Machine.new (options.inForce lookup)).interpret
          Chunk.demo
          (ByteSink.filled limit failure
            (listingPart options))) := by
  have hTaken :
      ByteSink.leftOver? limit failure #[]
          (listingPart options) =
        none := by
    rw [ByteSink.leftOver?_eq_none_iff, Array.size_empty]
    omega
  have hList := list_filled options limit failure
  rw [hTaken] at hList
  exact run_of_listed hList lookup

/-
  On a sink of limited size the program leaves the first
  bytes of its whole output. The exit code tells which part
  failed to be written: without its listing the program does
  not run the demonstration, and a fault of the run comes
  before a failure of the trace or of the result. The six is
  the number of steps that the demonstration takes.
-/
theorem run_on_limited_sink
    (options : Options)
    (lookup : String → Option String)
    (limit : Nat)
    (failure : SinkFailure) :
    let report :=
      run options lookup
        ({ limit := some limit
           failure := failure } : ByteSink)
    let full := fullOutput options lookup
    let verdict :=
      (demonstration (options.limitIn lookup)).verdict
    report.sink.held = full.take limit ∧
      (verdict = .runtimeError ↔
        ∃ l, options.limitIn lookup = some l ∧ l < 6) ∧
      report.status.code =
        if limit < (listingPart options).size then 74
        else if verdict = .runtimeError then 70
        else if full.size ≤ limit then 0
        else 74 := by
  intro report full verdict
  have hReport :
      report =
        run options lookup
          (ByteSink.filled limit failure #[]) := by
    rw [ByteSink.filled_empty]
  rw [hReport]
  by_cases hShort : limit < (listingPart options).size
  · rcases run_of_short_listing hShort lookup failure with
      ⟨hSink, hStatus⟩
    rw [hSink, hStatus, if_pos hShort]
    exact ⟨rfl, verdict_demonstration_iff _, rfl⟩
  · rw [run_of_room hShort, if_neg hShort]
    by_cases hFaults : verdict = .runtimeError
    · rcases conclude_of_fault hFaults
          (Config.ofVariables lookup).2 limit failure
          (listingPart options) with
        ⟨hSink, hStatus⟩
      have hFull :
          full =
            listingPart options ++
              tracePart options lookup := by
        simp only [full, fullOutput,
          resultPart_of_fault hFaults, Array.append_empty]
      rw [hSink, hStatus, if_pos hFaults, hFull]
      exact ⟨rfl, verdict_demonstration_iff _, rfl⟩
    · rcases conclude_of_no_fault hFaults
          (Config.ofVariables lookup).2 limit failure
          (listingPart options) with
        ⟨hSink, hStatus⟩
      rw [hSink, hStatus, if_neg hFaults]
      refine ⟨rfl, verdict_demonstration_iff _, ?_⟩
      exact apply_ite Status.code _ _ _

end Program

end Abacus
