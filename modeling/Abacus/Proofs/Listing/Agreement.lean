import Abacus.Listing.Basic
import Abacus.Proofs.Machine.History
import Abacus.Sink.Bytes
import Abacus.Stack.View

/-
  Runs and listings agree on the instructions.

  A listing walks over the code from row to row, a run from
  step to step. Both decide byte by byte where the next
  instruction starts. They stay together as long as the run
  goes on, and each row shows the instruction that is
  executed at its offset.

  Main declarations:
    * `Instruction.shown`
    * `Chunk.rowAfter_of_fetch_ok`
    * `Machine.offsets_history_prefix`
    * `Machine.history_follows_rows`
-/

------------------------------------------------------------
-- Rows
------------------------------------------------------------

namespace Abacus

namespace Instruction

/- The body of the row of an instruction. -/
def body :
    Instruction → Row.Body
| .push value => .constant value
| .negate => .plain .negate
| .binary operator => .plain (.binary operator)
| .ret => .plain .ret

/- What a row shows of an instruction. -/
def shown :
    Instruction → String
| .push value =>
    Opcode.constant.mnemonic ++ "\t" ++ Number.text value
| i => i.opcode.mnemonic

theorem text_body
    (i : Instruction) :
    i.body.text = i.shown := by
  cases i <;> rfl

end Instruction

namespace Chunk

variable {c : Chunk}

/- The row of a constant that can be fetched. -/
theorem constantAt_of_fetchConstant_ok
    {offset next : Nat}
    {i : Instruction}
    (hFetch : c.fetchConstant offset = (.ok i, next)) :
    c.constantAt offset = i.body ∧
      next = offset + i.body.width := by
  unfold fetchConstant at hFetch
  unfold constantAt
  cases hIndex : c.code[offset + 1]? with
  | none => simp [hIndex] at hFetch
  | some index =>
      simp only [hIndex] at hFetch ⊢
      cases hValue : c.constant? index.toNat with
      | none => simp [hValue] at hFetch
      | some value =>
          simp only [hValue] at hFetch ⊢
          cases hFetch
          exact ⟨rfl, rfl⟩

/-
  The row of an instruction that can be fetched shows it,
  and steps over exactly the bytes that were read.
-/
theorem rowAfter_of_fetch_ok
    {offset next : Nat}
    {i : Instruction}
    (hFetch : c.fetch offset = (.ok i, next))
    (previous : Option Nat) :
    c.rowAfter previous offset =
        .code offset (c.placeAfter previous offset)
          i.body ∧
      next = (c.rowAfter previous offset).next := by
  unfold fetch at hFetch
  unfold rowAfter
  cases hByte : c.code[offset]? with
  | none => simp [hByte] at hFetch
  | some byte =>
      simp only [hByte] at hFetch ⊢
      unfold bodyAt
      cases hOp : Opcode.ofByte? byte with
      | none => simp [hOp] at hFetch
      | some op =>
          simp only [hOp] at hFetch ⊢
          cases op with
          | constant =>
              rcases constantAt_of_fetchConstant_ok hFetch
                with ⟨hBody, hNext⟩
              exact ⟨by rw [hBody], by
                rw [hBody]
                exact hNext⟩
          | _ =>
              cases hFetch
              exact ⟨rfl, rfl⟩

/- A row within the code, and the rows behind it. -/
theorem rowsFrom_of_lt
    {offset : Nat}
    (hLt : offset < c.size)
    (previous : Option Nat) :
    c.rowsFrom previous offset =
      c.rowAfter previous offset ::
        c.rowsFrom (c.line? offset)
          (c.rowAfter previous offset).next := by
  rw [rowsFrom, if_pos hLt]

/- There are no rows behind the code. -/
theorem rowsFrom_of_le
    {offset : Nat}
    (hLe : c.size ≤ offset)
    (previous : Option Nat) :
    c.rowsFrom previous offset = [] := by
  rw [rowsFrom, if_neg (Nat.not_lt.mpr hLe)]

/- Every row of a listing is the row at its offset. -/
theorem exists_rowAfter_of_mem_rowsFrom
    {previous : Option Nat}
    {offset : Nat}
    {row : Row}
    (hRow : row ∈ c.rowsFrom previous offset) :
    ∃ before, row = c.rowAfter before row.offset := by
  induction hRest : c.size - offset using Nat.strongRecOn
    generalizing previous offset with
  | ind rest ih =>
      by_cases hLt : offset < c.size
      · rw [rowsFrom_of_lt hLt, List.mem_cons] at hRow
        rcases hRow with hHere | hThere
        · refine ⟨previous, ?_⟩
          rw [hHere, offset_rowAfter]
        · have hNext := c.lt_next_rowAfter previous offset
          exact ih _ (by omega) hThere rfl
      · rw [rowsFrom_of_le (Nat.le_of_not_lt hLt)] at hRow
        cases hRow

end Chunk

end Abacus

------------------------------------------------------------
-- Steps And Rows
------------------------------------------------------------

namespace Abacus

namespace Machine

variable {c : Chunk}

/-
  The steps of a run begin at the offsets of the rows, one
  after the other, and at most one more at the end of the
  code. The machine never leaves the code, which the listing
  may do by one byte.
-/
theorem offsets_history_prefix
    {m : Machine}
    (hBound : m.offset ≤ c.size)
    (previous : Option Nat) :
    (m.history c).map Machine.offset <+:
      (c.rowsFrom previous m.offset).map Row.offset ++
        [c.size] := by
  induction m using induction_forward (c := c)
    generalizing previous with
  | step m ih =>
      cases hStep : m.step c with
      | next m' =>
          have hLt := (step_next_forward hStep).1
          have hCase := step_case c m
          rw [hStep] at hCase
          cases hCase with
          | executed hAllowed hFetch hGoesOn hExecute =>
              have hWithin := (Chunk.fetch_ok hFetch).2
              have hNext :=
                (Chunk.rowAfter_of_fetch_ok hFetch
                  previous).2
              have hRest :=
                ih _ hStep hWithin (c.line? m.offset)
              rw [history_of_next hStep,
                Chunk.rowsFrom_of_lt hLt, ← hNext,
                List.map_cons, List.map_cons,
                Chunk.offset_rowAfter, List.cons_append]
              exact
                (List.prefix_cons_inj m.offset).mpr hRest
      | _ =>
          rw [history_of_last (by simp [hStep])]
          by_cases hLt : m.offset < c.size
          · rw [Chunk.rowsFrom_of_lt hLt]
            simp
          · have hEnd : m.offset = c.size := by omega
            rw [Chunk.rowsFrom_of_le (by omega)]
            simp [hEnd]

/- A step within the code begins at the row of its number. -/
theorem exists_row_of_getElem?_history
    {m s : Machine}
    {k : Nat}
    (hBound : m.offset ≤ c.size)
    (previous : Option Nat)
    (hStep : (m.history c)[k]? = some s)
    (hLt : s.offset < c.size) :
    ∃ before,
      (c.rowsFrom previous m.offset)[k]? =
        some (c.rowAfter before s.offset) := by
  have hOffset :
      ((c.rowsFrom previous m.offset).map Row.offset ++
          [c.size])[k]? =
        some s.offset := by
    rcases offsets_history_prefix hBound previous with
      ⟨more, hMore⟩
    have hLength := (List.getElem?_eq_some_iff.mp hStep).1
    rw [← hMore,
      List.getElem?_append_left (by simpa using hLength),
      List.getElem?_map, hStep]
    rfl
  cases hRow : (c.rowsFrom previous m.offset)[k]? with
  | none =>
      have hLength :=
        List.getElem?_eq_none_iff.mp hRow
      rw [List.getElem?_append_right (by simpa using hLength)]
        at hOffset
      have hMem := List.mem_of_getElem? hOffset
      have hEnd := List.mem_singleton.mp hMem
      omega
  | some row =>
      have hMem := List.mem_of_getElem? hRow
      rcases Chunk.exists_rowAfter_of_mem_rowsFrom hMem with
        ⟨before, hBefore⟩
      have hLength :=
        (List.getElem?_eq_some_iff.mp hRow).1
      rw [List.getElem?_append_left (by simpa using hLength),
        List.getElem?_map, hRow] at hOffset
      have hSame : row.offset = s.offset :=
        Option.some.inj hOffset
      refine ⟨before, ?_⟩
      rw [← hSame, ← hBefore]

/- At the end of the code a step fails. -/
theorem step_at_end
    {s : Machine}
    (hEnd : s.offset = c.size) :
    ∃ cause s',
      s.step c = .failed cause s' ∧
        (cause = .unexpectedEnd c.size ∨
          ∃ limit,
            s.config.stepLimit = some limit ∧
              cause = .stepLimitExceeded limit) := by
  have hNone : c.code[c.size]? = none :=
    Array.getElem?_size
  have hFetch :
      c.fetch s.offset =
        (.error (.unexpectedEnd c.size), c.size) := by
    simp [Chunk.fetch, hEnd, hNone]
  cases hRefusal : s.refusal? with
  | none =>
      exact ⟨_, _, step_of_fetch_error hRefusal hFetch,
        .inl rfl⟩
  | some cause =>
      rcases exists_limit_of_refused hRefusal with
        ⟨limit, hLimit, _, hCause⟩
      exact ⟨cause, s, step_of_refused hRefusal,
        .inr ⟨limit, hLimit, hCause⟩⟩

end Machine

end Abacus

------------------------------------------------------------
-- Agreement
------------------------------------------------------------

namespace Abacus

/- A row at an offset shows an instruction. -/
structure Row.Shows
    (row : Row)
    (offset : Nat)
    (i : Instruction) : Prop where
  offset_eq : row.offset = offset
  text_eq :
    ∃ place : Row.Place,
      row.text =
        Row.cell offset ++ "\t" ++ place.text ++ i.shown ++
          "\n"

/- The row of an instruction that can be fetched shows it. -/
theorem Chunk.shows_rowAfter
    {c : Chunk}
    {offset next : Nat}
    {i : Instruction}
    (hFetch : c.fetch offset = (.ok i, next))
    (previous : Option Nat) :
    (c.rowAfter previous offset).Shows offset i where
  offset_eq := c.offset_rowAfter previous offset
  text_eq := by
    refine ⟨c.placeAfter previous offset, ?_⟩
    rw [(rowAfter_of_fetch_ok hFetch previous).1, Row.text,
      Instruction.text_body]

/- The rows of a listing stand below its three line heading. -/
theorem Chunk.getElem?_listingLines
    {c : Chunk}
    {k : Nat}
    {row : Row}
    (hRow : c.rows[k]? = some row)
    (name : String) :
    (c.listingLines name)[k + 3]? = some row.text := by
  simp [listingLines, heading, hRow]

namespace Machine

variable {σ : Type}
variable [Sink σ]

/-
  The steps that a run observes begin at the offsets of the
  rows of the listing, and at most one more at the end of
  the code, where it fails. The row of a step that completes
  shows the instruction that was executed, with the value
  that was pushed, and steps over the same bytes.
-/
theorem history_follows_rows
    (m : Machine)
    (c : Chunk)
    (sink : σ) :
    (∀ t : Tracer σ,
      (run c t m.reset).tracer =
        (m.reset.history c).foldl
          (fun t s => t.observe c s) t) ∧
    (m.reset.history c).map Machine.offset <+:
      c.rows.map Row.offset ++ [c.size] ∧
    (∀ s ∈ m.reset.history c, s.offset = c.size →
      ∃ cause,
        (m.interpret c sink).machine.fault =
            some ⟨cause, c.size, c.position? c.size⟩ ∧
          (cause = .unexpectedEnd c.size ∨
            ∃ limit,
              m.config.stepLimit = some limit ∧
                cause = .stepLimitExceeded limit)) ∧
    ∀ k s s',
      (m.reset.history c)[k]? = some s →
      s.step c = .next s' ∨ s.step c = .returned s' →
      ∃ i row,
        (c.fetch s.offset).1 = .ok i ∧
          i.execute s.stack = .ok s'.stack ∧
          (∀ value, i = .push value →
            s'.stack.toList = s.stack.toList ++ [value]) ∧
          c.rows[k]? = some row ∧
          (∀ name,
            (c.listingLines name)[k + 3]? =
              some row.text) ∧
          row.Shows s.offset i ∧
          s'.offset = (c.rowAt s.offset).next ∧
          s'.offset = s.offset + i.opcode.width := by
  have hStart : m.reset.offset ≤ c.size := Nat.zero_le _
  refine ⟨fun t => run_tracer c t m.reset,
    offsets_history_prefix hStart none, ?_, ?_⟩
  · intro s hMem hEnd
    rcases step_at_end hEnd with
      ⟨cause, s', hStep, hCause⟩
    rw [config_of_mem_history hMem] at hCause
    refine ⟨cause, ?_, hCause⟩
    rw [interpret_machine, ← hEnd]
    exact fault_of_failed_mem_history _ hMem hStep
  · intro k s s' hAt hCompleted
    rcases exists_instruction_of_completed hCompleted with
      ⟨i, hFetch, hExecute⟩
    have hWidth := Chunk.fetch_ok hFetch
    have hPos := i.width_pos
    rcases exists_row_of_getElem?_history hStart none hAt
        (by omega) with
      ⟨before, hRow⟩
    refine ⟨i, c.rowAfter before s.offset, ?_, hExecute, ?_,
      hRow, Chunk.getElem?_listingLines hRow,
      Chunk.shows_rowAfter hFetch before,
      (Chunk.rowAfter_of_fetch_ok hFetch _).2, hWidth.1⟩
    · rw [hFetch]
    · intro value hPush
      subst hPush
      exact Stack.toList_of_push_ok hExecute

/-
  An operand that is the byte of another operation, at the
  end of the code.
-/
theorem history_follows_rows_operand :
    ∃ s',
      (Machine.new {}).reset.step
          { code := #[0, 1], constants := #[2, 5] } =
        .next s' ∧
      s'.offset = 2 ∧
      s'.stack.toList = [5] ∧
      (∃ row,
        (Chunk.mk #[0, 1] #[] #[2, 5]).rows[0]? =
            some row ∧
          row.Shows 0 (.push 5)) ∧
      ∃ cause,
        ((Machine.new {}).interpret
            { code := #[0, 1], constants := #[2, 5] }
            ({} : ByteSink)).machine.fault =
          some ⟨cause, 2, none⟩ := by
  have hAgree :=
    history_follows_rows (Machine.new {})
      { code := #[0, 1], constants := #[2, 5] }
      ({} : ByteSink)
  have hFirst :
      ∃ s',
        (Machine.new {}).reset.step
            { code := #[0, 1], constants := #[2, 5] } =
          .next s' ∧
        s'.offset = 2 :=
    ⟨_, step_of_execute_ok (i := .push 5) rfl rfl
      (by simp) rfl, rfl⟩
  rcases hFirst with ⟨s', hStep, hOffset⟩
  rcases history_eq_cons _ s' with ⟨rest, hRest⟩
  have hHistory := history_of_next hStep
  rw [hRest] at hHistory
  rw [hHistory] at hAgree
  rcases hAgree with ⟨_, _, hEnd, hCompleted⟩
  rcases hEnd s' (by simp) hOffset with
    ⟨cause, hFault, _⟩
  rcases hCompleted 0 _ s' rfl (.inl hStep) with
    ⟨i, row, hFetch, _, hPushed, hRow, _, hShows, _⟩
  have hPush : i = .push 5 := (Except.ok.inj hFetch).symm
  rw [hPush] at hShows
  exact ⟨s', hStep, hOffset, hPushed 5 hPush,
    ⟨row, hRow, hShows⟩, cause, hFault⟩

end Machine

end Abacus
