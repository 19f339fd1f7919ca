import Abacus.Proofs.Program.Refinement

/-
  The trail of a program.

  A snapshot is what is known before a step: the offset of
  the next token, the number of steps so far, and the
  values. The trail of an execution holds the snapshots of
  all its steps. It is a matter of the decoded program; a
  machine that runs the chunk passes through it, whatever
  its settings for the trace are and whatever lies in its
  unused slots.

  Main declarations:
    * `Snapshot`
    * `Program.trail`
    * `Chunk.trail`
    * `Machine.snapshots_history`
-/

------------------------------------------------------------
-- Trails
------------------------------------------------------------

namespace Abacus

/- What is known before a step, the top value first. -/
structure Snapshot where
  offset : Nat
  steps : Nat
  values : List Number
deriving DecidableEq

namespace Program

/-
  The snapshots of an execution of tokens and a tail. The
  last one is that of the step that stops.
-/
def trailTokens
    (pool : List Number)
    (limit : Option Nat)
    (tail : Nat × Tail) :
    List (Nat × Token) → Nat → List Number → List Snapshot
| [], steps, values => [⟨tail.1, steps, values⟩]
| (offset, token) :: rest, steps, values =>
    ⟨offset, steps, values⟩ ::
      match refusal? limit steps with
      | some _ => []
      | none =>
          match token.effect pool values with
          | .ok values =>
              trailTokens pool limit tail rest (steps + 1)
                values
          | .error _ => []

/- The trail of a program after some steps, on some values. -/
def trail
    (pool : List Number)
    (limit : Option Nat)
    (p : Program)
    (steps : Nat)
    (values : List Number) : List Snapshot :=
  trailTokens pool limit p.tail p.tokens steps values

end Program

namespace Chunk

/- The snapshots of the execution of a chunk. -/
def trail
    (c : Chunk)
    (limit : Option Nat) : List Snapshot :=
  (Program.decode 0 c.code.toList).trail c.constants.toList
    limit 0 []

end Chunk

namespace Program

variable {pool : List Number}
variable {limit : Option Nat}
variable {p : Program}
variable {offset steps : Nat}
variable {token : Token}
variable {tail : Tail}
variable {values : List Number}

/- A trail ends where the limit refuses a step. -/
theorem trail_cons_of_refused
    {cause : Cause}
    (hRefused : refusal? limit steps = some cause) :
    (p.cons offset token).trail pool limit steps values =
      [⟨offset, steps, values⟩] := by
  simp [trail, cons, trailTokens, hRefused]

/- A token that goes on is followed by the rest. -/
theorem trail_cons_of_ok
    {values' : List Number}
    (hAllowed : refusal? limit steps = none)
    (hEffect : token.effect pool values = .ok values') :
    (p.cons offset token).trail pool limit steps values =
      ⟨offset, steps, values⟩ ::
        p.trail pool limit (steps + 1) values' := by
  simp [trail, cons, trailTokens, hAllowed, hEffect]

/- A trail ends with a token that stops. -/
theorem trail_cons_of_stop
    {stop : Option Cause}
    (hEffect : token.effect pool values = .error stop) :
    (p.cons offset token).trail pool limit steps values =
      [⟨offset, steps, values⟩] := by
  simp only [trail, cons, trailTokens, hEffect]
  cases refusal? limit steps <;> rfl

/- A trail ends with a tail. -/
theorem trail_tail :
    (Program.mk [] (offset, tail)).trail pool limit steps
        values =
      [⟨offset, steps, values⟩] :=
  rfl

end Program

end Abacus

------------------------------------------------------------
-- Machines On A Trail
------------------------------------------------------------

namespace Abacus

namespace Machine

variable {c : Chunk}
variable {m : Machine}

/- What is known of a machine before a step. -/
def snapshot
    (m : Machine) : Snapshot where
  offset := m.offset
  steps := m.steps
  values := m.stack.values

/- How the trail goes on from the state of a machine. -/
def trail
    (c : Chunk)
    (m : Machine) : List Snapshot :=
  (m.program c).trail c.constants.toList m.config.stepLimit
    m.steps m.stack.values

/- A machine that is refused a step is at the end. -/
theorem trail_of_refused
    {cause : Cause}
    (hRefused : m.refusal? = some cause) :
    m.trail c = [m.snapshot] := by
  rw [refusal?_eq] at hRefused
  unfold trail program
  rcases Program.exists_token_or_tail
      (c.code.toList.drop m.offset) with
    ⟨token, rest, hCode⟩ | ⟨tail, hStarts⟩
  · rw [hCode, Program.decode_token_append]
    exact Program.trail_cons_of_refused hRefused
  · rw [Program.decode_tail _ hStarts]
    exact Program.trail_tail

/-
  The steps of a run begin at the snapshots of the trail, in
  the same order. Each step of the machine takes one token
  of the program, whose effect decides whether both go on.
-/
theorem snapshots_history
    (c : Chunk)
    (m : Machine) :
    (m.history c).map snapshot = m.trail c := by
  induction m using induction_forward (c := c) with
  | step m ih =>
      cases hRefusal : m.refusal? with
      | some cause =>
          have hStep := step_of_refused (c := c) hRefusal
          rw [history_of_last (by simp [hStep]),
            trail_of_refused hRefusal]
          rfl
      | none =>
          have hAllowed := hRefusal
          rw [refusal?_eq] at hAllowed
          rcases Program.exists_token_or_tail
              (c.code.toList.drop m.offset) with
            ⟨token, rest, hCode⟩ | ⟨tail, hStarts⟩
          · have hStep := step_of_token hRefusal hCode
            rw [trail, program_of_token hCode]
            cases hEffect :
                token.effect c.constants.toList
                  m.stack.values with
            | ok values =>
                rw [hEffect] at hStep
                rcases hStep with ⟨stack, hValues, hNext⟩
                subst hValues
                rw [history_of_next hNext, List.map_cons,
                  ih _ hNext,
                  Program.trail_cons_of_ok hAllowed hEffect]
                rfl
            | error stop =>
                rw [hEffect] at hStep
                rw [Program.trail_cons_of_stop hEffect]
                cases stop <;>
                  rw [history_of_last (by simp [hStep])] <;>
                  rfl
          · have hStep := step_of_tail hRefusal hStarts
            rw [history_of_last (by simp [hStep]), trail,
              program, Program.decode_tail _ hStarts]
            rfl

/- A reset machine passes through the trail of the chunk. -/
theorem snapshots_history_reset
    (c : Chunk)
    (m : Machine) :
    (m.reset.history c).map snapshot =
      c.trail m.config.stepLimit := by
  rw [snapshots_history]
  simp [trail, program, reset, Chunk.trail]

end Machine

end Abacus
