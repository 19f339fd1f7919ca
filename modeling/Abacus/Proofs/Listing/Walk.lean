import Abacus.Proofs.Listing.Coverage
import Abacus.Proofs.Machine.StepLimit
import Abacus.Proofs.Program.RoundTrip

/-
  Rows by themselves, and rows of a listing.

  A row by itself takes the line above from the byte just
  before it, a row of a listing from the opcode of the row
  above. Both decide byte by byte where the next row is, so
  a walk over single rows visits the rows of the listing,
  and shows the same but for the bars. Where operands are of
  the line of their opcode, the bars are the same as well.

  Main declarations:
    * `Row.columns` and `Chunk.columns_rowAfter`
    * `Chunk.walkFrom_eq_map`
    * `Chunk.exists_above`
    * `Chunk.BarsAgree` and `Chunk.OperandsInLine`
    * `Chunk.join_walk_iff`
    * `Chunk.operandsInLine_ofEdits`
    * `Chunk.walk_agrees_with_listing`
-/

------------------------------------------------------------
-- Columns
------------------------------------------------------------

namespace Abacus

namespace Row

/- The columns of a row, as its tabs divide its text. -/
def columns
    (row : Row) : List (List Char) :=
  Text.pieces '\t' row.text.toList

end Row

namespace Chunk

variable {c : Chunk}
variable {offset : Nat}

/- The columns of a row of which there is a position. -/
theorem columns_rowAfter
    {byte : UInt8}
    {position : Position}
    (hByte : c.code[offset]? = some byte)
    (hPosition : c.position? offset = some position)
    (previous : Option Nat) :
    (c.rowAfter previous offset).columns =
      (Row.cell offset).toList ::
        (if previous = some position.line then
            "|"
          else
            Row.cell position.line).toList ::
        (Row.cell position.col).toList ::
        Text.pieces '\t'
          ((c.bodyAt offset byte).text ++ "\n").toList := by
  have hCell : ∀ n, '\t' ∉ (Row.cell n).toList := by
    intro n
    exact (Row.isCell_cell n).1
  have hLine :
      '\t' ∉
        (if previous = some position.line then
            "|"
          else
            Row.cell position.line).toList := by
    split
    · decide
    · exact hCell position.line
  have hText :
      (c.rowAfter previous offset).text.toList =
        (Row.cell offset).toList ++
          '\t' ::
            ((if previous = some position.line then
                "|"
              else
                Row.cell position.line).toList ++
              '\t' ::
                ((Row.cell position.col).toList ++
                  '\t' ::
                    ((c.bodyAt offset byte).text ++
                      "\n").toList)) := by
    simp [rowAfter, hByte, Row.text,
      text_placeAfter hPosition]
  rw [Row.columns, hText,
    Text.pieces_append_cons (hCell offset),
    Text.pieces_append_cons hLine,
    Text.pieces_append_cons (hCell position.col)]

/- The line above matters to no column but the second. -/
theorem eraseIdx_columns_rowAfter
    (hPlaced : c.Placed)
    (hLt : offset < c.size)
    (previous other : Option Nat) :
    (c.rowAfter previous offset).columns.eraseIdx 1 =
      (c.rowAfter other offset).columns.eraseIdx 1 := by
  rcases hPlaced.exists_at hLt with
    ⟨byte, position, hByte, hPosition⟩
  rw [columns_rowAfter hByte hPosition,
    columns_rowAfter hByte hPosition]
  rfl

/- The second column is a bar if the line is that above. -/
theorem bar_rowAfter_iff
    (hPlaced : c.Placed)
    (hLt : offset < c.size)
    (previous : Option Nat) :
    (c.rowAfter previous offset).columns[1]? = some ['|'] ↔
      previous = c.line? offset := by
  rcases hPlaced.exists_at hLt with
    ⟨byte, position, hByte, hPosition⟩
  rw [columns_rowAfter hByte hPosition,
    line?_of_position? hPosition]
  by_cases hBar : previous = some position.line
  · simp [hBar]
  · have hCell :
        (Row.cell position.line).toList ≠ "|".toList := by
      intro hSame
      exact Row.cell_ne_bar _ (String.toList_inj.mp hSame)
    simpa [hBar] using hCell

/- Rows at one offset differ exactly if one has a bar. -/
theorem text_rowAfter_iff
    (hPlaced : c.Placed)
    (hLt : offset < c.size)
    (previous other : Option Nat) :
    (c.rowAfter previous offset).text =
        (c.rowAfter other offset).text ↔
      (previous = c.line? offset ↔
        other = c.line? offset) := by
  constructor
  · intro hText
    have hColumns :
        (c.rowAfter previous offset).columns =
          (c.rowAfter other offset).columns := by
      rw [Row.columns, Row.columns, hText]
    rw [← bar_rowAfter_iff hPlaced hLt previous,
      ← bar_rowAfter_iff hPlaced hLt other, hColumns]
  · intro hBar
    rcases hPlaced.exists_at hLt with
      ⟨byte, position, hByte, hPosition⟩
    rw [line?_of_position? hPosition] at hBar
    simp only [rowAfter, hByte, Row.text,
      text_placeAfter hPosition, hBar]

end Chunk

end Abacus

------------------------------------------------------------
-- Walks
------------------------------------------------------------

namespace Abacus

namespace Chunk

variable {c : Chunk}
variable {offset : Nat}

@[simp] theorem offset_rowAt
    (c : Chunk)
    (offset : Nat) :
    (c.rowAt offset).offset = offset :=
  c.offset_rowAfter _ offset

/- A walk visits the rows of a listing, each by itself. -/
theorem walkFrom_eq_map
    (c : Chunk)
    (previous : Option Nat)
    (offset : Nat) :
    c.walkFrom offset =
      (c.rowsFrom previous offset).map fun row =>
        c.rowAt row.offset := by
  induction hRest : c.size - offset using Nat.strongRecOn
    generalizing previous offset with
  | ind rest ih =>
      rw [walkFrom]
      by_cases hLt : offset < c.size
      · have hForward := c.lt_next_rowAfter previous offset
        have hLess :
            c.size - (c.rowAfter previous offset).next <
              rest := by
          omega
        have hBehind :=
          ih _ hLess (c.line? offset) _ rfl
        rw [if_pos hLt, rowsFrom_of_lt hLt, List.map_cons,
          offset_rowAfter, ← hBehind, next_rowAfter]
      · rw [if_neg hLt,
          rowsFrom_of_le (Nat.le_of_not_lt hLt)]
        rfl

theorem walk_eq_map
    (c : Chunk) :
    c.walk = c.rows.map fun row => c.rowAt row.offset :=
  c.walkFrom_eq_map none 0

/- Writing the row at an offset takes its text and goes on. -/
theorem writeRow_of_unlimited
    (c : Chunk)
    (offset : Nat)
    {sink : ByteSink}
    (hLimit : sink.limit = none) :
    c.writeRow offset sink =
      ({ sink with
          held :=
            sink.held ++
              ByteSink.bytesOf (c.rowAt offset).text },
        .ok (c.rowAt offset).next) := by
  rw [writeRow, writeRowAfter,
    ByteSink.writeAll_of_unlimited _ hLimit, Row.join_parts]
  rfl

/-
  A row below another comes right behind it, and is shown
  below the line of its opcode.
-/
theorem exists_above
    {previous : Option Nat}
    {k : Nat}
    {row : Row}
    (hRow :
      (c.rowsFrom previous offset)[k + 1]? = some row) :
    ∃ above,
      (c.rowsFrom previous offset)[k]? = some above ∧
        row =
          c.rowAfter (c.line? above.offset) above.next := by
  induction k generalizing previous offset with
  | zero =>
      have hLt := lt_size_of_getElem?_rowsFrom hRow
      rw [rowsFrom_of_lt hLt] at hRow ⊢
      rw [List.getElem?_cons_succ] at hRow
      refine ⟨c.rowAfter previous offset, rfl, ?_⟩
      rw [offset_rowAfter]
      exact getElem?_zero_rowsFrom hRow
  | succ k ih =>
      have hLt := lt_size_of_getElem?_rowsFrom hRow
      rw [rowsFrom_of_lt hLt] at hRow ⊢
      rw [List.getElem?_cons_succ] at hRow ⊢
      exact ih hRow

end Chunk

end Abacus

------------------------------------------------------------
-- Bars
------------------------------------------------------------

namespace Abacus

namespace Chunk

/-
  Below every constant, the operand and the opcode give the
  same answer to whether the line is that above.
-/
def BarsAgree
    (c : Chunk) : Prop :=
  ∀ k row below,
    c.rows[k]? = some row →
      c.rows[k + 1]? = some below →
        c.code[row.offset]? = some Opcode.constant.toByte →
          (c.line? (row.offset + 1) = c.line? below.offset ↔
            c.line? row.offset = c.line? below.offset)

/-
  The operand of every constant with a row below it is of
  the line of its opcode.
-/
def OperandsInLine
    (c : Chunk) : Prop :=
  ∀ k row below,
    c.rows[k]? = some row →
      c.rows[k + 1]? = some below →
        c.code[row.offset]? = some Opcode.constant.toByte →
          c.line? (row.offset + 1) = c.line? row.offset

variable {c : Chunk}

theorem OperandsInLine.barsAgree
    (hInLine : c.OperandsInLine) :
    c.BarsAgree := by
  intro k row below hRow hBelow hByte
  rw [hInLine k row below hRow hBelow hByte]

/-
  The byte before a row is the operand of the row above if
  that is a constant, and otherwise its opcode.
-/
theorem lineBefore?_next
    {offset : Nat}
    {row : Row}
    (hCovers : c.Covers offset row) :
    c.lineBefore? row.next =
      if c.code[offset]? = some Opcode.constant.toByte then
        c.line? (offset + 1)
      else
        c.line? offset := by
  cases hCovers with
  | single hByte hPlain _ _ hNext =>
      have hOther :
          c.code[offset]? ≠ some Opcode.constant.toByte := by
        rw [hByte]
        simpa using hPlain
      rw [hNext, if_neg hOther]
      rfl
  | operand hByte _ _ _ hNext =>
      rw [hNext, if_pos hByte]
      rfl
  | lacking hByte _ _ _ hNext =>
      rw [hNext, if_pos hByte]
      rfl

/- When a row below another looks the same by itself. -/
theorem text_below_iff
    (hPlaced : c.Placed)
    {k : Nat}
    {row below : Row}
    (hRow : c.rows[k]? = some row)
    (hBelow : c.rows[k + 1]? = some below) :
    (c.rowAt below.offset).text = below.text ↔
      (c.code[row.offset]? = some Opcode.constant.toByte →
        (c.line? (row.offset + 1) = c.line? below.offset ↔
          c.line? row.offset = c.line? below.offset)) := by
  have hLt :=
    lt_size_of_mem_rows (List.mem_of_getElem? hBelow)
  have hCovers :=
    covers_of_mem_rows (List.mem_of_getElem? hRow)
  rcases exists_above hBelow with ⟨above, hAbove, hSame⟩
  have hAbove : above = row :=
    Option.some.inj (hAbove.symm.trans hRow)
  rw [hAbove] at hSame
  have hOffset : below.offset = row.next := by
    rw [hSame, offset_rowAfter]
  rw [hOffset] at hLt ⊢
  rw [hSame, rowAt, text_rowAfter_iff hPlaced hLt,
    lineBefore?_next hCovers]
  by_cases hConstant :
      c.code[row.offset]? = some Opcode.constant.toByte
  · rw [if_pos hConstant]
    constructor
    · intro hBars _
      exact hBars
    · intro hBars
      exact hBars hConstant
  · -- The byte before is the opcode above, so the bars are
    -- always the same.
    rw [if_neg hConstant]
    simp [hConstant]

theorem texts_walk_iff
    (hPlaced : c.Placed) :
    c.walk.map Row.text = c.rows.map Row.text ↔
      c.BarsAgree := by
  rw [walk_eq_map, List.map_map, List.map_inj_left]
  constructor
  · intro hTexts k row below hRow hBelow
    have hText := hTexts below (List.mem_of_getElem? hBelow)
    exact (text_below_iff hPlaced hRow hBelow).mp hText
  · intro hBars row hMem
    rcases List.mem_iff_getElem?.mp hMem with ⟨k, hRow⟩
    cases k with
    | zero =>
        rw [getElem?_zero_rowsFrom hRow, Function.comp_apply,
          offset_rowAfter]
        rfl
    | succ k =>
        rcases exists_above hRow with ⟨above, hAbove, _⟩
        apply (text_below_iff hPlaced hAbove hRow).mpr
        exact hBars k above row hAbove hRow

/-
  The rows of a walk below the heading are the listing
  exactly if the bars agree.
-/
theorem join_walk_iff
    (hPlaced : c.Placed)
    (name : String) :
    String.join (heading name ++ c.walk.map Row.text) =
        c.listing name ↔
      c.BarsAgree := by
  rw [listing_eq_append, String.join_append,
    String.append_right_inj, ← texts_walk_iff hPlaced]
  constructor
  · intro hJoin
    exact Row.texts_of_join_eq hJoin
  · intro hTexts
    rw [hTexts]

/- A bar stands for the line of the opcode above. -/
theorem bar_iff_above
    (hPlaced : c.Placed)
    {k : Nat}
    {row : Row}
    (hRow : c.rows[k]? = some row) :
    row.columns[1]? = some ['|'] ↔
      ∃ j above,
        k = j + 1 ∧
          c.rows[j]? = some above ∧
          c.line? above.offset = c.line? row.offset := by
  have hLt :=
    lt_size_of_mem_rows (List.mem_of_getElem? hRow)
  cases k with
  | zero =>
      have hFirst := getElem?_zero_rowsFrom hRow
      have hNone : none ≠ c.line? row.offset := by
        rcases hPlaced.exists_at hLt with
          ⟨byte, position, hByte, hPosition⟩
        rw [line?_of_position? hPosition]
        simp
      have hOffset : row.offset = 0 := by
        rw [hFirst, offset_rowAfter]
      rw [hOffset] at hLt hNone
      rw [hFirst, bar_rowAfter_iff hPlaced hLt]
      simp [hNone]
  | succ k =>
      rcases exists_above hRow with ⟨above, hAbove, hSame⟩
      have hOffset : row.offset = above.next := by
        rw [hSame, offset_rowAfter]
      have hBar :
          row.columns[1]? = some ['|'] ↔
            c.line? above.offset = c.line? row.offset := by
        rw [hOffset] at hLt ⊢
        rw [hSame]
        exact bar_rowAfter_iff hPlaced hLt _
      rw [hBar]
      constructor
      · intro hLine
        exact ⟨k, above, rfl, hAbove, hLine⟩
      · rintro ⟨j, other, hIndex, hOther, hLine⟩
        cases hIndex
        have hSame : above = other :=
          Option.some.inj (hAbove.symm.trans hOther)
        rw [hSame]
        exact hLine

end Chunk

end Abacus

------------------------------------------------------------
-- Operands In Line
------------------------------------------------------------

namespace Abacus

namespace Chunk

variable {c : Chunk}
variable {offset : Nat}
variable {es : List Emission}

/- Code that is spelled out has its operands in line. -/
theorem Spells.line?_operand
    (hSpells : c.Spells offset es)
    {previous : Option Nat}
    {row : Row}
    (hRow : row ∈ c.rowsFrom previous offset)
    (hByte :
      c.code[row.offset]? = some Opcode.constant.toByte) :
    c.line? (row.offset + 1) = c.line? row.offset := by
  induction hSpells generalizing previous with
  | nil =>
      rw [rowsFrom_of_le (Nat.le_refl _)] at hRow
      cases hRow
  | @cons offset e es hRead hPlace hRest ih =>
      have hFetch := fetch_of_instructionAt? hRead
      have hNext := (rowAfter_of_fetch_ok hFetch previous).2
      rw [rowsFrom_of_lt (lt_size_of_instructionAt? hRead),
        List.mem_cons, ← hNext] at hRow
      rcases hRow with hHere | hThere
      · have hOffset : row.offset = offset := by
          rw [hHere, offset_rowAfter]
        rw [hOffset] at hByte ⊢
        have hOpcode := (instructionAt?_eq_some_iff.mp hRead).1
        rw [hOpcode, Option.some.injEq] at hByte
        have hConstant : e.instruction.opcode = .constant := by
          have hRead := congrArg Opcode.ofByte? hByte
          simpa using hRead
        have hWidth : e.instruction.width = 2 := by
          rw [Instruction.width, hConstant]
          rfl
        have hFirst := hPlace 0 (by omega)
        have hSecond := hPlace 1 (by omega)
        rw [Nat.add_zero] at hFirst
        rw [line?, line?, hFirst, hSecond]
      · exact ih hThere

/- Safe edits spell out code, though some may be refused. -/
theorem exists_spells_applyAll
    {edits : List Edit}
    (hSpells : c.Spells 0 es)
    (hPlaced : c.Placed)
    (hSafe : ∀ edit ∈ edits, edit.IsSafe) :
    ∃ all, (c.applyAll edits).Spells 0 all := by
  induction edits generalizing c es with
  | nil => exact ⟨es, hSpells⟩
  | cons edit edits ih =>
      have hEdit := hSafe edit List.mem_cons_self
      have hEdits :
          ∀ other ∈ edits, other.IsSafe := by
        intro other hOther
        exact hSafe other (List.mem_cons_of_mem _ hOther)
      have hNext := hPlaced.applyAll [edit]
      cases hReply : (c.apply edit).reply with
      | ok index =>
          exact ih (hSpells.apply hPlaced hEdit hReply) hNext
            hEdits
      | error full =>
          -- A refused edit leaves the chunk as it was.
          rcases (refused_iff c edit).mp ⟨full, hReply⟩ with
            ⟨hValue, hFull⟩
          rcases Option.isSome_iff_exists.mp hValue with
            ⟨value, hValue⟩
          have hSame := (apply_of_full hValue hFull).2
          have hStill := hSpells
          rw [← hSame] at hStill
          exact ih hStill hNext hEdits

theorem operandsInLine_ofEdits
    {edits : List Edit}
    (hSafe : ∀ edit ∈ edits, edit.IsSafe) :
    (ofEdits edits).OperandsInLine := by
  have hEmpty : empty.Spells 0 [] := Spells.nil
  rcases exists_spells_applyAll hEmpty rfl hSafe with
    ⟨es, hSpells⟩
  intro k row below hRow hBelow hByte
  exact hSpells.line?_operand (List.mem_of_getElem? hRow)
    hByte

end Chunk

end Abacus

------------------------------------------------------------
-- Agreement
------------------------------------------------------------

namespace Abacus

namespace Chunk

variable {c : Chunk}

/-
  A walk over the rows of a chunk, each by itself, visits
  the rows of its listing. What it shows of a row differs at
  most in the line, and it is the listing exactly if the
  bars agree. They do if operands are of the line of their
  opcode, as in all chunks that are built by constants and
  whole instructions. In a listing, a bar stands for the
  line of the opcode above.
-/
theorem walk_agrees_with_listing
    (hReachable : c.Reachable)
    (name : String) :
    c.walk.map Row.offset = c.rows.map Row.offset ∧
      (∀ row ∈ c.walk,
        ∀ sink : ByteSink,
          sink.limit = none →
            c.writeRow row.offset sink =
              ({ sink with
                  held :=
                    sink.held ++
                      ByteSink.bytesOf row.text },
                .ok row.next)) ∧
      (∀ (k : Nat) (alone row : Row),
        c.walk[k]? = some alone →
          c.rows[k]? = some row →
            alone.next = row.next ∧
              alone.columns.eraseIdx 1 =
                row.columns.eraseIdx 1) ∧
      (String.join (heading name ++ c.walk.map Row.text) =
          c.listing name ↔
        c.BarsAgree) ∧
      (c.OperandsInLine →
        String.join (heading name ++ c.walk.map Row.text) =
          c.listing name) ∧
      (∀ edits : List Edit,
        (∀ edit ∈ edits, edit.IsSafe) →
          (ofEdits edits).OperandsInLine) ∧
      ∀ (k : Nat) (row : Row),
        c.rows[k]? = some row →
          (row.columns[1]? = some ['|'] ↔
            ∃ j above,
              k = j + 1 ∧
                c.rows[j]? = some above ∧
                c.line? above.offset =
                  c.line? row.offset) := by
  have hPlaced := hReachable.placed
  have hJoin := join_walk_iff hPlaced name
  refine ⟨?_, ?_, ?_, hJoin, ?_, ?_, ?_⟩
  · rw [walk_eq_map, List.map_map]
    apply List.map_congr_left
    intro row _
    exact c.offset_rowAt row.offset
  · intro row hRow sink hLimit
    rw [walk_eq_map] at hRow
    rcases List.mem_map.mp hRow with ⟨shown, _, hAlone⟩
    have hSame : c.rowAt row.offset = row := by
      rw [← hAlone, offset_rowAt]
    rw [c.writeRow_of_unlimited row.offset hLimit, hSame]
  · intro k alone row hAlone hRow
    have hLt :=
      lt_size_of_mem_rows (List.mem_of_getElem? hRow)
    rcases exists_rowAfter_of_mem_rowsFrom
        (List.mem_of_getElem? hRow) with
      ⟨previous, hShown⟩
    rw [walk_eq_map, List.getElem?_map, hRow,
      Option.map_some, Option.some.injEq] at hAlone
    rw [← hAlone, hShown, offset_rowAfter]
    constructor
    · exact (c.next_rowAfter previous row.offset).symm
    · exact eraseIdx_columns_rowAfter hPlaced hLt _ _
  · intro hInLine
    exact hJoin.mpr hInLine.barsAgree
  · intro edits hSafe
    exact operandsInLine_ofEdits hSafe
  · intro k row hRow
    exact bar_iff_above hPlaced hRow

/-
  The operand of the first chunk is of another line than its
  opcode and the row below, so that row has a bar in the
  listing only. The second chunk is of whole instructions.
-/
theorem walk_agrees_with_listing_operand :
    ∃ c d : Chunk,
      c.Reachable ∧
        c.walk.map Row.offset = c.rows.map Row.offset ∧
        String.join (heading "c" ++ c.walk.map Row.text) ≠
          c.listing "c" ∧
        ¬c.BarsAgree ∧
        d.Reachable ∧
        d.size = 5 ∧
        d.OperandsInLine ∧
        String.join (heading "d" ++ d.walk.map Row.text) =
          d.listing "d" := by
  have hReachable :
      (ofEdits
        [.constant 1.5, .byte 0 ⟨1, 1⟩, .byte 0 ⟨2, 1⟩,
          .byte 6 ⟨1, 3⟩]).Reachable :=
    ⟨_, rfl⟩
  have hReachable' :
      (ofEdits
        [.push 1.5 ⟨1, 1⟩, .push 4 ⟨1, 5⟩,
          .op .ret ⟨2, 1⟩]).Reachable :=
    ⟨_, rfl⟩
  rcases walk_agrees_with_listing hReachable "c" with
    ⟨hOffsets, _, _, hBars, _, _, _⟩
  rcases walk_agrees_with_listing hReachable' "d" with
    ⟨_, _, _, _, hInLine, hSafe, _⟩
  have hDiffer :
      String.join
          (heading "c" ++
            (ofEdits
              [.constant 1.5, .byte 0 ⟨1, 1⟩,
                .byte 0 ⟨2, 1⟩,
                .byte 6 ⟨1, 3⟩]).walk.map Row.text) ≠
        (ofEdits
          [.constant 1.5, .byte 0 ⟨1, 1⟩, .byte 0 ⟨2, 1⟩,
            .byte 6 ⟨1, 3⟩]).listing "c" := by
    decide +kernel
  have hOperands := hSafe
    [.push 1.5 ⟨1, 1⟩, .push 4 ⟨1, 5⟩, .op .ret ⟨2, 1⟩]
    (by decide)
  exact ⟨_, _, hReachable, hOffsets, hDiffer,
    mt hBars.mpr hDiffer, hReachable', rfl, hOperands,
    hInLine hOperands⟩

end Chunk

end Abacus
