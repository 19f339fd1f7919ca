import Abacus.Listing.Basic
import Abacus.Machine.Basic

/-
  Runs.

  A run takes steps until one returns or fails. With the
  trace on, the stack and the row of the instruction are
  written to a sink before each step; if the sink fails, the
  run goes on without a trace. A run starts from a reset
  machine and leaves its stack as it was at the end.

  Key definitions include:
    * `Abacus.Machine.entry`
    * `Abacus.Tracer`
    * `Abacus.Machine.run`
    * `Abacus.Verdict`
    * `Abacus.Machine.interpret`
-/

------------------------------------------------------------
-- Traces
------------------------------------------------------------

namespace Abacus

namespace Machine

/- The line that shows the stack. -/
def stackLine
    (m : Machine) : String :=
  m.stack.toList.foldl
      (fun line value =>
        line ++ " [" ++ Number.text value ++ "]")
      "stack:" ++
    "\n"

/- What the trace shows before a step. -/
def entry
    (c : Chunk)
    (m : Machine) : String :=
  m.stackLine ++ (c.rowAt m.offset).text

end Machine

/- A sink for the trace, if it is on, and what was logged. -/
structure Tracer (σ : Type) where
  sink : σ
  on : Bool
  log : List Event

namespace Tracer

variable {σ : Type}
variable [Sink σ]

/-
  Write the entry of the next step. There is none at the end
  of the code. A failure turns the trace off.
-/
def observe
    (t : Tracer σ)
    (c : Chunk)
    (m : Machine) : Tracer σ :=
  if t.on ∧ m.offset < c.size then
    match Sink.write t.sink (m.entry c) with
    | (sink, none) => { t with sink := sink }
    | (sink, some reason) =>
        { sink := sink
          on := false
          log := t.log ++ [.traceDisabled reason] }
  else
    t

end Tracer

end Abacus

------------------------------------------------------------
-- Runs
------------------------------------------------------------

namespace Abacus

/- The machine and the tracer at the end of a run. -/
structure Ending (σ : Type) where
  machine : Machine
  tracer : Tracer σ
  fault : Option Fault

namespace Machine

variable {σ : Type}
variable [Sink σ]

/- Take steps until one returns or fails. -/
def run
    (c : Chunk)
    (t : Tracer σ)
    (m : Machine) : Ending σ :=
  let observed := t.observe c m
  match _h : m.step c with
  | .next m' => run c observed m'
  | .returned m' => ⟨m', observed, none⟩
  | .failed cause m' =>
      ⟨m', observed,
        some ⟨cause, m.offset, c.position? m.offset⟩⟩
termination_by c.size - m.offset
decreasing_by
  have hForward := step_next_forward _h
  omega

/- A step that goes on is followed by the rest of the run. -/
theorem run_of_next
    {c : Chunk}
    {t : Tracer σ}
    {m m' : Machine}
    (h : m.step c = .next m') :
    run c t m = run c (t.observe c m) m' := by
  rw [run]
  split <;> simp_all

/- A step that returns is the last one. -/
theorem run_of_returned
    {c : Chunk}
    {t : Tracer σ}
    {m m' : Machine}
    (h : m.step c = .returned m') :
    run c t m = ⟨m', t.observe c m, none⟩ := by
  rw [run]
  split <;> simp_all

/- A step that fails is the last one. -/
theorem run_of_failed
    {c : Chunk}
    {t : Tracer σ}
    {m m' : Machine}
    {cause : Cause}
    (h : m.step c = .failed cause m') :
    run c t m =
      ⟨m', t.observe c m,
        some ⟨cause, m.offset, c.position? m.offset⟩⟩ := by
  rw [run]
  split <;> simp_all

end Machine

end Abacus

------------------------------------------------------------
-- Interpretation
------------------------------------------------------------

namespace Abacus

/-
  The verdict on a chunk. A compile error is kept apart from
  a fault; a chunk that is already built never meets one.
-/
inductive Verdict where
| ok
| compileError
| runtimeError
deriving DecidableEq

/- What a run of a chunk gives. -/
structure Interpretation (σ : Type) where
  machine : Machine
  verdict : Verdict
  sink : σ
  log : List Event

namespace Machine

variable {σ : Type}
variable [Sink σ]

/- The event at the end of a run, and its verdict. -/
def close
    (m : Machine) :
    Option Fault → Verdict × Event
| none => (.ok, .returned m.steps m.stack.size)
| some fault => (.runtimeError, .faulted fault m.steps)

/- Run a chunk from its start on a reset machine. -/
def interpret
    (m : Machine)
    (c : Chunk)
    (sink : σ) : Interpretation σ :=
  let opening :=
    Event.interpreting
      c.size c.constants.size m.config.trace
  let ending :=
    run c
      { sink := sink
        on := m.config.trace
        log := [opening] }
      m.reset
  let (verdict, closing) := ending.machine.close ending.fault
  { machine := { ending.machine with fault := ending.fault }
    verdict := verdict
    sink := ending.tracer.sink
    log := ending.tracer.log ++ [closing] }

end Machine

end Abacus
