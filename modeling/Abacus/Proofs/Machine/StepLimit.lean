import Abacus.Chunk.Demo
import Abacus.Proofs.Machine.Trace
import Abacus.Sink.Bytes

/-
  Runs under a step limit.

  A limit of at least as many steps as the chunk takes
  without one changes nothing. A smaller limit cuts the run
  exactly there: it stops before the step that would be one
  too many, whose entry is still the last one of the trace.

  Main declarations:
    * `Program.trail_limited`
    * `Program.exec_of_enough`
    * `Program.exec_of_short`
    * `ByteSink.writeAll_of_unlimited`
    * `Machine.interpret_limited`
-/

------------------------------------------------------------
-- Limited Executions
------------------------------------------------------------

namespace Abacus

namespace Program

variable {c : Chunk}
variable {limit steps : Nat}
variable {values : List Number}

/- A limit that is not used up refuses nothing. -/
theorem refusal?_of_lt
    (hLeft : steps < limit) :
    refusal? (some limit) steps = none := by
  have hNot : ¬limit ≤ steps := Nat.not_le.mpr hLeft
  simp [refusal?, Option.filter, hNot]

/- A limit that is used up refuses the next step. -/
theorem refusal?_of_le
    (hSpent : limit ≤ steps) :
    refusal? (some limit) steps =
      some (.stepLimitExceeded limit) := by
  simp [refusal?, Option.filter, hSpent]

/- Without a limit every snapshot is a step that is taken. -/
theorem steps_exec_none
    (p : Program)
    (steps : Nat)
    (values : List Number) :
    (p.exec c none steps values).steps =
      steps +
        (p.trail c.constants.toList none steps
          values).length := by
  induction p using induction_cons
    generalizing steps values with
  | tail offset tail => rfl
  | cons offset token p ih =>
      cases hEffect :
          token.effect c.constants.toList values with
      | ok values' =>
          rw [exec_cons_of_ok rfl hEffect,
            trail_cons_of_ok rfl hEffect, ih,
            List.length_cons]
          omega
      | error stop =>
          rw [exec_cons_of_stop rfl hEffect,
            trail_cons_of_stop hEffect]
          rfl

/- There is at least one step. -/
theorem lt_steps_exec_none
    (p : Program)
    (steps : Nat)
    (values : List Number) :
    steps < (p.exec c none steps values).steps := by
  have hPos :
      0 <
        (p.trail c.constants.toList none steps
          values).length := by
    rcases p with ⟨_ | ⟨first, tokens⟩, tail⟩ <;>
      simp [trail, trailTokens]
  rw [steps_exec_none]
  omega

/-
  A limit keeps the trail up to the snapshot of the step
  that it refuses.
-/
theorem trail_limited
    {pool : List Number}
    (p : Program)
    (hLeft : steps ≤ limit) :
    p.trail pool (some limit) steps values =
      (p.trail pool none steps values).take
        (limit + 1 - steps) := by
  induction p using induction_cons
    generalizing steps values with
  | tail offset tail =>
      rw [trail_tail, trail_tail, List.take_of_length_le]
      simp only [List.length_singleton]
      omega
  | cons offset token p ih =>
      cases hEffect : token.effect pool values with
      | ok values' =>
          have hFree :
              (p.cons offset token).trail pool none steps
                  values =
                ⟨offset, steps, values⟩ ::
                  p.trail pool none (steps + 1) values' :=
            trail_cons_of_ok rfl hEffect
          rw [hFree]
          by_cases hSpent : limit ≤ steps
          · -- The step that is refused has a snapshot too.
            have hOne : limit + 1 - steps = 1 := by omega
            rw [trail_cons_of_refused
              (refusal?_of_le hSpent), hOne]
            rfl
          · have hMore :
                limit + 1 - steps =
                  limit + 1 - (steps + 1) + 1 := by
              omega
            rw [trail_cons_of_ok
                (refusal?_of_lt (by omega)) hEffect,
              hMore, List.take_succ_cons, ih (by omega)]
      | error stop =>
          rw [trail_cons_of_stop hEffect,
            trail_cons_of_stop hEffect,
            List.take_of_length_le]
          simp only [List.length_singleton]
          omega

/- A limit that suffices changes nothing. -/
theorem exec_of_enough
    (p : Program)
    (hEnough :
      (p.exec c none steps values).steps ≤ limit) :
    p.exec c (some limit) steps values =
      p.exec c none steps values := by
  induction p using induction_cons
    generalizing steps values with
  | tail offset tail =>
      have hLeft : steps < limit := hEnough
      rw [exec_tail (refusal?_of_lt hLeft), exec_tail rfl]
  | cons offset token p ih =>
      have hLeft : steps < limit :=
        Nat.lt_of_lt_of_le (lt_steps_exec_none _ _ _)
          hEnough
      have hAllowed := refusal?_of_lt hLeft
      cases hEffect :
          token.effect c.constants.toList values with
      | ok values' =>
          rw [exec_cons_of_ok rfl hEffect] at hEnough
          rw [exec_cons_of_ok hAllowed hEffect,
            exec_cons_of_ok rfl hEffect, ih hEnough]
      | error stop =>
          rw [exec_cons_of_stop hAllowed hEffect,
            exec_cons_of_stop rfl hEffect]

/-
  A limit that does not suffice stops the execution at the
  snapshot of the step that it refuses. The induction is on
  the program: as long as the limit is not used up, a token
  that stops would have ended the execution within it.
-/
theorem exec_of_short
    (p : Program)
    (hLeft : steps ≤ limit)
    (hShort :
      limit < (p.exec c none steps values).steps) :
    ∃ s,
      (p.trail c.constants.toList none steps
          values)[limit - steps]? =
        some s ∧
      p.exec c (some limit) steps values =
        ⟨s.values, limit,
          some
            ⟨.stepLimitExceeded limit, s.offset,
              c.position? s.offset⟩⟩ := by
  induction p using induction_cons
    generalizing steps values with
  | tail offset tail =>
      have hSpent : limit = steps := by
        rw [exec_tail rfl] at hShort
        dsimp only at hShort
        omega
      subst hSpent
      refine ⟨⟨offset, limit, values⟩, ?_, ?_⟩
      · rw [trail_tail, Nat.sub_self]
        rfl
      · exact exec_tail_of_refused
          (refusal?_of_le (Nat.le_refl limit))
  | cons offset token p ih =>
      by_cases hSpent : limit = steps
      · subst hSpent
        refine ⟨⟨offset, limit, values⟩, ?_, ?_⟩
        · rw [Nat.sub_self]
          rfl
        · exact exec_cons_of_refused
            (refusal?_of_le (Nat.le_refl limit))
      · have hAllowed : refusal? (some limit) steps = none :=
          refusal?_of_lt (by omega)
        cases hEffect :
            token.effect c.constants.toList values with
        | ok values' =>
            rw [exec_cons_of_ok rfl hEffect] at hShort
            have hMore :
                limit - steps = limit - (steps + 1) + 1 := by
              omega
            rw [exec_cons_of_ok hAllowed hEffect,
              trail_cons_of_ok rfl hEffect, hMore,
              List.getElem?_cons_succ]
            exact ih (by omega) hShort
        | error stop =>
            -- Stopping here takes no more than `limit` steps.
            rw [exec_cons_of_stop rfl hEffect] at hShort
            dsimp only at hShort
            omega

end Program

end Abacus

------------------------------------------------------------
-- Limited Chunks
------------------------------------------------------------

namespace Abacus

namespace Chunk

/- Without a limit a chunk takes a step for each snapshot. -/
theorem steps_outcome_none
    (c : Chunk) :
    (c.outcome none).steps = (c.trail none).length := by
  rw [outcome, Program.steps_exec_none, Nat.zero_add]
  rfl

/- A limit keeps the first snapshots of the trail. -/
theorem trail_some
    (c : Chunk)
    (limit : Nat) :
    c.trail (some limit) =
      (c.trail none).take (limit + 1) :=
  Program.trail_limited _ (Nat.zero_le limit)

/- A limit that suffices keeps all of them. -/
theorem trail_of_enough
    {c : Chunk}
    {limit : Nat}
    (hEnough : (c.outcome none).steps ≤ limit) :
    c.trail (some limit) = c.trail none := by
  rw [steps_outcome_none] at hEnough
  rw [trail_some, List.take_of_length_le (by omega)]

/- It changes nothing that a caller sees. -/
theorem account_of_enough
    {σ : Type}
    [Sink σ]
    {c : Chunk}
    {config : Config}
    {limit : Nat}
    (hFree : config.stepLimit = none)
    (hEnough : (c.outcome none).steps ≤ limit)
    (sink : σ) :
    c.account (config.withStepLimit (some limit)) sink =
      c.account config sink := by
  have hOutcome :
      c.outcome (some limit) = c.outcome none :=
    Program.exec_of_enough _ hEnough
  have hTexts :
      c.texts (config.withStepLimit (some limit)) =
        c.texts config := by
    simp only [texts, Config.withStepLimit, hFree,
      trail_of_enough hEnough]
  unfold account
  rw [hTexts, hFree, ← hOutcome]
  rfl

end Chunk

end Abacus

------------------------------------------------------------
-- Collected Traces
------------------------------------------------------------

namespace Abacus

namespace ByteSink

theorem bytesOf_append
    (s t : String) :
    bytesOf (s ++ t) = bytesOf s ++ bytesOf t := by
  simp [bytesOf]

/- A sink without a limit takes all bytes of a text. -/
theorem write_of_unlimited
    {sink : ByteSink}
    (hLimit : sink.limit = none)
    (text : String) :
    Sink.write sink text =
      ({ sink with held := sink.held ++ bytesOf text },
        none) := by
  change sink.write text = _
  simp [write, room, hLimit]

/- It takes all texts, one after the other. -/
theorem writeAll_of_unlimited
    (sink : ByteSink)
    (hLimit : sink.limit = none)
    (texts : List String) :
    Sink.writeAll sink texts =
      ({ sink with
          held := sink.held ++ bytesOf (String.join texts) },
        none) := by
  induction texts generalizing sink with
  | nil => simp [Sink.writeAll, bytesOf]
  | cons text texts ih =>
      have hRest :=
        ih { sink with held := sink.held ++ bytesOf text }
          hLimit
      rw [Sink.writeAll, write_of_unlimited hLimit]
      dsimp only
      rw [hRest, String.join_cons, bytesOf_append,
        Array.append_assoc]

end ByteSink

end Abacus

------------------------------------------------------------
-- Interpretation
------------------------------------------------------------

namespace Abacus

namespace Machine

/-
  The bytes that the trace shows of some steps, if it is on.
  There is no entry at the end of the code.
-/
def traceBytes
    (m : Machine)
    (c : Chunk)
    (steps : List Machine) : Array UInt8 :=
  if m.config.trace then
    ByteSink.bytesOf
      (String.join
        ((steps.filter fun s => s.offset < c.size).map
          (entry c)))
  else
    #[]

/- Entries of machines are those of their snapshots. -/
theorem map_entry_filter
    (c : Chunk)
    (steps : List Machine) :
    (steps.filter fun s => s.offset < c.size).map
        (entry c) =
      (steps.map snapshot).filterMap
        (Snapshot.entry? c) := by
  induction steps with
  | nil => rfl
  | cons s steps ih =>
      rw [List.map_cons]
      by_cases hWithin : s.offset < c.size
      · rw [List.filter_cons_of_pos (by simpa using hWithin),
          List.filterMap_cons_some (entry?_of_lt hWithin),
          List.map_cons, ih]
      · have hEnd := Nat.le_of_not_lt hWithin
        rw [List.filter_cons_of_neg (by simpa using hWithin),
          List.filterMap_cons_none (entry?_of_le hEnd), ih]

/- A sink without a limit collects the texts of a chunk. -/
theorem held_interpret_texts
    (m : Machine)
    (c : Chunk) :
    (m.interpret c ({} : ByteSink)).sink.held =
      ByteSink.bytesOf
        (String.join (c.texts m.config)) := by
  rw [interpret_sink, ByteSink.writeAll_of_unlimited _ rfl]
  exact Array.empty_append

/- These are the trace of all steps. -/
theorem held_interpret
    (m : Machine)
    (c : Chunk) :
    (m.interpret c ({} : ByteSink)).sink.held =
      m.traceBytes c (m.reset.history c) := by
  rw [held_interpret_texts, traceBytes, map_entry_filter,
    snapshots_history_reset, Chunk.texts]
  cases m.config.trace <;> simp [ByteSink.bytesOf]

/-
  A limited machine passes through the first steps of a free
  one, and through the one that it is refused.
-/
theorem snapshots_history_limited
    {m l : Machine}
    {limit : Nat}
    (hFree : m.config.stepLimit = none)
    (hLimit : l.config.stepLimit = some limit)
    (c : Chunk) :
    (l.reset.history c).map snapshot =
      ((m.reset.history c).take (limit + 1)).map
        snapshot := by
  rw [snapshots_history_reset, List.map_take,
    snapshots_history_reset, hFree, hLimit,
    Chunk.trail_some]

/- The machine at a snapshot of the trail. -/
theorem exists_machine_of_getElem?_trail
    {m : Machine}
    {c : Chunk}
    {k : Nat}
    {snap : Snapshot}
    (hSnap :
      (c.trail m.config.stepLimit)[k]? = some snap) :
    ∃ s : Machine,
      (m.reset.history c)[k]? = some s ∧
        s.snapshot = snap := by
  rw [← snapshots_history_reset, List.getElem?_map] at hSnap
  exact Option.map_eq_some_iff.mp hSnap

/-
  A machine with a step limit shows all that a machine
  without one shows, if the limit is not below the number of
  steps that the chunk takes. A smaller limit stops the run
  at the step that would be one too many: the stack is that
  before this step, and the trace ends with its entry.
-/
theorem interpret_limited
    (m l : Machine)
    (limit : Nat)
    (hFree : m.config.stepLimit = none)
    (hLimited :
      l.config = m.config.withStepLimit (some limit))
    (c : Chunk) :
    (m.reset.history c).length =
        (m.interpret c ({} : ByteSink)).machine.steps ∧
      (m.interpret c ({} : ByteSink)).sink.held =
        m.traceBytes c (m.reset.history c) ∧
      ((m.interpret c ({} : ByteSink)).machine.steps ≤
          limit →
        (l.interpret c ({} : ByteSink)).account =
          (m.interpret c ({} : ByteSink)).account) ∧
      (limit <
          (m.interpret c ({} : ByteSink)).machine.steps →
        ∃ s,
          (m.reset.history c)[limit]? = some s ∧
            (l.interpret c ({} : ByteSink)).verdict =
              .runtimeError ∧
            (l.interpret c ({} : ByteSink)).machine.fault =
              some
                ⟨.stepLimitExceeded limit, s.offset,
                  c.position? s.offset⟩ ∧
            (l.interpret c ({} : ByteSink)).machine.steps =
              limit ∧
            (l.interpret c
                ({} : ByteSink)).machine.stack.toList =
              s.stack.toList ∧
            (l.interpret c ({} : ByteSink)).sink.held =
              m.traceBytes c
                ((m.reset.history c).take
                  (limit + 1))) := by
  have hLimit : l.config.stepLimit = some limit := by
    rw [hLimited]
    rfl
  have hFreeOutcome :=
    interpret_outcome m c ({} : ByteSink)
  rw [hFree] at hFreeOutcome
  have hSteps :
      (m.interpret c ({} : ByteSink)).machine.steps =
        (c.outcome none).steps :=
    congrArg Outcome.steps hFreeOutcome
  rw [hSteps]
  refine ⟨?_, held_interpret m c, ?_, ?_⟩
  · rw [Chunk.steps_outcome_none, ← hFree,
      ← snapshots_history_reset, List.length_map]
  · intro hEnough
    rw [interpret_account, interpret_account, hLimited]
    exact Chunk.account_of_enough hFree hEnough _
  · intro hShort
    rcases Program.exec_of_short _ (Nat.zero_le limit)
        hShort with
      ⟨snap, hSnap, hCut⟩
    rw [← hFree] at hSnap
    rcases exists_machine_of_getElem?_trail hSnap with
      ⟨s, hMachine, hSame⟩
    subst hSame
    have hOutcome := interpret_outcome l c ({} : ByteSink)
    rw [hLimit] at hOutcome
    have hStop := hOutcome.trans hCut
    refine ⟨s, hMachine, ?_, congrArg Outcome.fault hStop,
      congrArg Outcome.steps hStop, ?_, ?_⟩
    · rw [interpret_verdict, hStop]
      rfl
    · rw [← Stack.reverse_values, ← Stack.reverse_values]
      exact congrArg (fun o => o.values.reverse) hStop
    · rw [held_interpret]
      unfold traceBytes
      rw [map_entry_filter, map_entry_filter,
        snapshots_history_limited hFree hLimit, hLimited]
      rfl

/-
  The demonstration chunk takes six steps. A limit of six is
  enough; a limit of five stops it at the return, which is
  at offset 8.
-/
theorem interpret_limited_demo :
    ((Machine.new { trace := true }).interpret Chunk.demo
          ({} : ByteSink)).machine.steps =
        6 ∧
      ((Machine.new
            { trace := true, stepLimit := some 6 }).interpret
          Chunk.demo ({} : ByteSink)).account =
        ((Machine.new { trace := true }).interpret Chunk.demo
          ({} : ByteSink)).account ∧
      ((Machine.new
            { trace := true, stepLimit := some 5 }).interpret
          Chunk.demo ({} : ByteSink)).machine.fault =
        some ⟨.stepLimitExceeded 5, 8, some ⟨5, 23⟩⟩ := by
  have hOutcome :=
    interpret_outcome (Machine.new { trace := true })
      Chunk.demo ({} : ByteSink)
  have hSteps :
      ((Machine.new { trace := true }).interpret Chunk.demo
          ({} : ByteSink)).machine.steps =
        6 :=
    (congrArg Outcome.steps hOutcome).trans
      (by decide +kernel)
  have hEnough :=
    (interpret_limited (Machine.new { trace := true })
      (Machine.new { trace := true, stepLimit := some 6 })
      6 rfl rfl Chunk.demo).2.2.1
  have hShort :=
    (interpret_limited (Machine.new { trace := true })
      (Machine.new { trace := true, stepLimit := some 5 })
      5 rfl rfl Chunk.demo).2.2.2
  rw [hSteps] at hEnough hShort
  rcases hShort (by decide) with ⟨s, hAt, _, hFault, _⟩
  have hOffset : s.offset = 8 := by
    have hSnap := congrArg (Option.map snapshot) hAt
    rw [← List.getElem?_map, snapshots_history_reset]
      at hSnap
    have hTrail :
        (Chunk.demo.trail none)[5]?.map Snapshot.offset =
          some 8 := by
      decide +kernel
    have hBoth := congrArg (Option.map Snapshot.offset) hSnap
    exact Option.some.inj (hBoth.symm.trans hTrail)
  rw [hOffset] at hFault
  exact ⟨hSteps, hEnough (by decide), hFault⟩

end Machine

end Abacus
