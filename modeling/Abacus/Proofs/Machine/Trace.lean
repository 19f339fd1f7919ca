import Abacus.Proofs.Program.Trail

/-
  What a caller sees of a run.

  The trail of a chunk tells what the trace of its run has
  to show: one entry for each snapshot within the code. A
  run with the trace on writes these entries in order, up to
  the first that the sink fails to take, and logs that one
  failure. So all that can be seen of an interpretation is a
  function of the chunk, the settings and the sink.

  Main declarations:
    * `Snapshot.entry?`
    * `Chunk.texts`
    * `Tracer.foldl_observe_of_on`
    * `Account` and `Chunk.account`
    * `Machine.interpret_account`
-/

------------------------------------------------------------
-- Entries
------------------------------------------------------------

namespace Abacus

namespace Snapshot

/-
  What the trace shows before a step. There is nothing to
  show at the end of the code.
-/
def entry?
    (c : Chunk)
    (s : Snapshot) : Option String :=
  if s.offset < c.size then
    some
      (s.values.reverse.foldl
          (fun line value =>
            line ++ " [" ++ Number.text value ++ "]")
          "stack:" ++
        "\n" ++ (c.rowAt s.offset).text)
  else
    none

end Snapshot

namespace Chunk

/- The texts that a run of a chunk has to write. -/
def texts
    (c : Chunk)
    (config : Config) : List String :=
  if config.trace then
    (c.trail config.stepLimit).filterMap (Snapshot.entry? c)
  else
    []

end Chunk

namespace Machine

variable {c : Chunk}
variable {m : Machine}

/- Within the code, the entry of a snapshot is the machine's. -/
theorem entry?_of_lt
    (hWithin : m.offset < c.size) :
    m.snapshot.entry? c = some (m.entry c) := by
  simp [Snapshot.entry?, snapshot, entry, stackLine,
    hWithin]

theorem entry?_of_le
    (hEnd : c.size ≤ m.offset) :
    m.snapshot.entry? c = none := by
  have hNot : ¬m.offset < c.size := Nat.not_lt.mpr hEnd
  simp [Snapshot.entry?, snapshot, hNot]

end Machine

end Abacus

------------------------------------------------------------
-- Tracers
------------------------------------------------------------

namespace Abacus

namespace Tracer

variable {σ : Type}
variable [Sink σ]
variable {c : Chunk}
variable {m : Machine}
variable {t : Tracer σ}

/-
  A tracer after it was given texts to write. A failure
  turns it off and is logged.
-/
def wrote
    (t : Tracer σ)
    (texts : List String) : Tracer σ where
  sink := (Sink.writeAll t.sink texts).1
  on := t.on && (Sink.writeAll t.sink texts).2.isNone
  log :=
    t.log ++
      (Sink.writeAll t.sink texts).2.toList.map
        .traceDisabled

@[simp] theorem wrote_nil
    (t : Tracer σ) :
    t.wrote [] = t := by
  simp [wrote, Sink.writeAll]

/- A tracer that is off observes nothing. -/
theorem observe_of_off
    (hOff : t.on = false) :
    t.observe c m = t := by
  simp [observe, hOff]

/- Neither does one at the end of the code. -/
theorem observe_of_le
    (hEnd : c.size ≤ m.offset) :
    t.observe c m = t := by
  have hNot : ¬m.offset < c.size := Nat.not_lt.mpr hEnd
  simp [observe, hNot]

/- A tracer that is off stays as it is. -/
theorem foldl_observe_of_off
    (hOff : t.on = false)
    (ms : List Machine) :
    ms.foldl (fun t m => t.observe c m) t = t := by
  induction ms with
  | nil => rfl
  | cons m ms ih =>
      rw [List.foldl_cons, observe_of_off hOff]
      exact ih

/-
  A tracer that is on writes the entries of the machines
  that it observes, up to the first failure. The induction
  is on the machines: as long as writes succeed only the
  sink changes, and after a failure the tracer is off.
-/
theorem foldl_observe_of_on
    (hOn : t.on = true)
    (ms : List Machine) :
    ms.foldl (fun t m => t.observe c m) t =
      t.wrote
        ((ms.map Machine.snapshot).filterMap
          (Snapshot.entry? c)) := by
  induction ms generalizing t with
  | nil => simp
  | cons m ms ih =>
      rw [List.foldl_cons, List.map_cons]
      by_cases hWithin : m.offset < c.size
      · rw [List.filterMap_cons_some
          (Machine.entry?_of_lt hWithin)]
        rcases hWrite : Sink.write t.sink (m.entry c) with
          ⟨sink, failure⟩
        cases failure with
        | none =>
            -- The tracer is still on, with a new sink.
            have hObserve :
                t.observe c m = { t with sink := sink } := by
              simp [observe, hOn, hWithin, hWrite]
            have hStillOn : (t.observe c m).on = true := by
              rw [hObserve]
              exact hOn
            rw [ih hStillOn, hObserve]
            simp [wrote, Sink.writeAll, hWrite]
        | some reason =>
            -- From here on nothing is written any more.
            have hObserve :
                t.observe c m =
                  { sink := sink
                    on := false
                    log :=
                      t.log ++ [.traceDisabled reason] } := by
              simp [observe, hOn, hWithin, hWrite]
            have hOff : (t.observe c m).on = false := by
              rw [hObserve]
            rw [foldl_observe_of_off hOff, hObserve]
            simp [wrote, Sink.writeAll, hWrite]
      · have hEnd := Nat.le_of_not_lt hWithin
        rw [List.filterMap_cons_none
          (Machine.entry?_of_le hEnd), observe_of_le hEnd]
        exact ih hOn

end Tracer

namespace Machine

variable {σ : Type}
variable [Sink σ]

/- The run of an interpretation writes the chunk's texts. -/
theorem run_opened_tracer
    (m : Machine)
    (c : Chunk)
    (sink : σ) :
    (run c (m.opened c sink) m.reset).tracer =
      (m.opened c sink).wrote (c.texts m.config) := by
  rw [run_tracer, Chunk.texts]
  cases hTrace : m.config.trace with
  | false =>
      rw [Tracer.foldl_observe_of_off hTrace]
      simp
  | true =>
      rw [Tracer.foldl_observe_of_on hTrace,
        snapshots_history_reset]
      simp

end Machine

end Abacus

------------------------------------------------------------
-- Accounts
------------------------------------------------------------

namespace Abacus

/- All that a caller sees of an interpretation. -/
structure Account (σ : Type) where
  verdict : Verdict
  stack : List Number
  top : Option Number
  fault : Option Fault
  steps : Nat
  sink : σ
  log : List Event

namespace Interpretation

variable {σ : Type}

/- What a caller sees of an interpretation. -/
def account
    (i : Interpretation σ) : Account σ where
  verdict := i.verdict
  stack := i.machine.stack.toList
  top := i.machine.stack.top?
  fault := i.machine.fault
  steps := i.machine.steps
  sink := i.sink
  log := i.log

end Interpretation

namespace Outcome

/- The event at the end of a run with this outcome. -/
def closing
    (o : Outcome) : Event :=
  match o.fault with
  | none => .returned o.steps o.values.length
  | some fault => .faulted fault o.steps

end Outcome

namespace Chunk

variable {σ : Type}
variable [Sink σ]

/-
  What a chunk, the settings and a sink lead a caller to
  see. No machine takes part in it.
-/
def account
    (c : Chunk)
    (config : Config)
    (sink : σ) : Account σ where
  verdict := (c.outcome config.stepLimit).verdict
  stack := (c.outcome config.stepLimit).values.reverse
  top := (c.outcome config.stepLimit).values.head?
  fault := (c.outcome config.stepLimit).fault
  steps := (c.outcome config.stepLimit).steps
  sink := (Sink.writeAll sink (c.texts config)).1
  log :=
    .interpreting c.size c.constants.size config.trace ::
      ((Sink.writeAll sink (c.texts config)).2.toList.map
          .traceDisabled ++
        [(c.outcome config.stepLimit).closing])

end Chunk

namespace Machine

variable {σ : Type}
variable [Sink σ]

/- The closing event tells the outcome. -/
theorem close_event
    (m : Machine)
    (fault : Option Fault) :
    (m.close fault).2 =
      (Outcome.mk m.stack.values m.steps fault).closing := by
  cases fault <;> simp [close, Outcome.closing]

/- An interpretation logs what the chunk's account says. -/
theorem interpret_log
    (m : Machine)
    (c : Chunk)
    (sink : σ) :
    (m.interpret c sink).log =
      (c.account m.config sink).log := by
  calc
    (m.interpret c sink).log
        = (run c (m.opened c sink) m.reset).tracer.log ++
            [((run c (m.opened c sink) m.reset).machine.close
              (run c (m.opened c sink) m.reset).fault).2] :=
          rfl
    _ = ((m.opened c sink).wrote (c.texts m.config)).log ++
          [(m.interpret c sink).outcome.closing] := by
          rw [run_opened_tracer, close_event]
          rfl
    _ = (c.account m.config sink).log := by
          rw [interpret_outcome]
          rfl

/- It leaves the sink with the chunk's texts. -/
theorem interpret_sink
    (m : Machine)
    (c : Chunk)
    (sink : σ) :
    (m.interpret c sink).sink =
      (Sink.writeAll sink (c.texts m.config)).1 := by
  change (run c (m.opened c sink) m.reset).tracer.sink = _
  rw [run_opened_tracer]
  rfl

/-
  All that can be seen of an interpretation is settled by
  the chunk, the settings and the sink.
-/
theorem interpret_account
    (m : Machine)
    (c : Chunk)
    (sink : σ) :
    (m.interpret c sink).account =
      c.account m.config sink := by
  have hOutcome := interpret_outcome m c sink
  unfold Interpretation.account
  rw [interpret_verdict, interpret_log, interpret_sink,
    ← Stack.reverse_values, Stack.top?_eq_head?]
  unfold Chunk.account
  rw [← hOutcome]
  rfl

end Machine

end Abacus
