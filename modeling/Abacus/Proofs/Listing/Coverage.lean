import Abacus.Proofs.Listing.Legible

/-
  A listing covers the code.

  The rows of any code, however malformed, take its bytes
  one after the other: each byte is the opcode of one row or
  the operand of one constant, and none is left out. Only a
  constant without its operand reaches beyond the code, and
  only as the last row.

  Main declarations:
    * `Row.operand?`, `Row.lacksOperand` and `Row.bytes`
    * `Chunk.Covers` and `Chunk.covers_rowAfter`
    * `Chunk.bytes_rowsFrom`
    * `Chunk.reachedFrom` and `Chunk.reached`
    * `Chunk.rows_cover_code`
-/

------------------------------------------------------------
-- Bytes Of A Row
------------------------------------------------------------

namespace Abacus

namespace Row

/- The offset of the operand. Only a constant has one. -/
def operand? :
    Row → Option Nat
| .code offset _ (.constant _) => some (offset + 1)
| .code offset _ (.invalidConstant _) => some (offset + 1)
| _ => none

/- Whether a row is a constant without its operand. -/
def lacksOperand :
    Row → Bool
| .code _ _ .missingOperand => true
| _ => false

/- The offsets of the bytes that a row shows. -/
def bytes
    (row : Row) : List Nat :=
  row.offset :: row.operand?.toList

/- Bytes of rows are opcodes or operands. -/
theorem count_bytes
    (rows : List Row)
    (i : Nat) :
    (rows.flatMap bytes).count i =
      rows.countP (fun row => row.offset == i) +
        rows.countP (fun row => row.operand? == some i) := by
  induction rows with
  | nil => rfl
  | cons row rows ih =>
      have hOperand :
          row.operand?.toList.count i =
            if row.operand? == some i then 1 else 0 := by
        cases row.operand? <;> simp [List.count_cons]
      rw [List.flatMap_cons, List.count_append, ih, bytes,
        List.count_cons, hOperand, List.countP_cons,
        List.countP_cons]
      omega

theorem length_bytes
    (rows : List Row) :
    (rows.flatMap bytes).length =
      rows.length +
        rows.countP (fun row => row.operand?.isSome) := by
  induction rows with
  | nil => rfl
  | cons row rows ih =>
      have hOperand :
          row.operand?.toList.length =
            if row.operand?.isSome then 1 else 0 := by
        cases row.operand? <;> rfl
      rw [List.flatMap_cons, List.length_append, ih, bytes,
        List.length_cons, hOperand, List.countP_cons,
        List.length_cons]
      omega

/- The offsets of rows are among their bytes, in order. -/
theorem offsets_sublist_bytes
    (rows : List Row) :
    (rows.map Row.offset).Sublist (rows.flatMap bytes) := by
  induction rows with
  | nil => exact List.Sublist.slnil
  | cons row rows ih =>
      rw [List.map_cons, List.flatMap_cons, bytes,
        List.cons_append]
      apply List.Sublist.cons_cons
      exact ih.trans (List.sublist_append_right _ _)

/- A whole row in front does not touch the last one. -/
theorem lacks_getLast?_cons
    {row : Row}
    (hLacks : row.lacksOperand = false)
    (rows : List Row) :
    (row :: rows).getLast?.any lacksOperand =
      rows.getLast?.any lacksOperand := by
  cases rows with
  | nil => simp [hLacks]
  | cons next rows => rw [List.getLast?_cons_cons]

end Row

namespace Chunk

/-
  All that a row at an offset can cover: a byte that is no
  constant, a constant and its operand, or a constant at the
  very end of the code.
-/
inductive Covers
    (c : Chunk)
    (offset : Nat)
    (row : Row) : Prop
| single
    {byte : UInt8}
    (hByte : c.code[offset]? = some byte)
    (hPlain : byte ≠ Opcode.constant.toByte)
    (hOperand : row.operand? = none)
    (hLacks : row.lacksOperand = false)
    (hNext : row.next = offset + 1)
| operand
    (hByte :
      c.code[offset]? = some Opcode.constant.toByte)
    (hWithin : offset + 1 < c.size)
    (hOperand : row.operand? = some (offset + 1))
    (hLacks : row.lacksOperand = false)
    (hNext : row.next = offset + 2)
| lacking
    (hByte :
      c.code[offset]? = some Opcode.constant.toByte)
    (hEnd : offset + 1 = c.size)
    (hOperand : row.operand? = none)
    (hLacks : row.lacksOperand = true)
    (hNext : row.next = offset + 2)

variable {c : Chunk}
variable {offset : Nat}

theorem covers_rowAfter
    (hLt : offset < c.size)
    (previous : Option Nat) :
    c.Covers offset (c.rowAfter previous offset) := by
  have hByte : c.code[offset]? = some c.code[offset] :=
    Array.getElem?_eq_getElem hLt
  generalize c.code[offset] = byte at hByte
  have hRow :
      c.rowAfter previous offset =
        .code offset (c.placeAfter previous offset)
          (c.bodyAt offset byte) := by
    simp [rowAfter, hByte]
  rw [hRow]
  by_cases hConstant : byte = Opcode.constant.toByte
  · subst hConstant
    rw [bodyAt_constant]
    rcases c.constantAt_cases offset with
      ⟨index, value, hIndex, _, hBody⟩ |
        ⟨index, hIndex, _, hBody⟩ | ⟨hIndex, hBody⟩
    · rw [hBody]
      exact .operand hByte
        (Array.getElem?_eq_some_iff.mp hIndex).1 rfl rfl rfl
    · rw [hBody]
      exact .operand hByte
        (Array.getElem?_eq_some_iff.mp hIndex).1 rfl rfl rfl
    · rw [hBody]
      have hEnd : c.size ≤ offset + 1 :=
        Array.getElem?_eq_none_iff.mp hIndex
      exact .lacking hByte (by omega) rfl rfl rfl
  · -- The body tells its byte, so it shows no constant.
    have hTold := c.byte_bodyAt offset byte
    cases hBody : c.bodyAt offset byte with
    | plain op => exact .single hByte hConstant rfl rfl rfl
    | unknown other =>
        exact .single hByte hConstant rfl rfl rfl
    | _ =>
        rw [hBody] at hTold
        exact absurd hTold.symm hConstant

/- Where the next row begins does not depend on lines. -/
theorem next_rowAfter
    (c : Chunk)
    (previous : Option Nat)
    (offset : Nat) :
    (c.rowAfter previous offset).next =
      (c.rowAt offset).next := by
  unfold rowAt rowAfter
  split <;> rfl

end Chunk

end Abacus

------------------------------------------------------------
-- Bytes Of A Listing
------------------------------------------------------------

namespace Abacus

namespace Chunk

variable {c : Chunk}
variable {offset : Nat}

/-
  The bytes left at an offset are those of the row there,
  and those left behind it.
-/
theorem Covers.bytes_append
    {row : Row}
    (hCovers : c.Covers offset row)
    (hOffset : row.offset = offset) :
    row.bytes ++
        List.range' row.next (c.size - row.next) =
      List.range' offset (c.size - offset) := by
  have hCode {byte : UInt8}
      (hByte : c.code[offset]? = some byte) :
      offset < c.size :=
    (Array.getElem?_eq_some_iff.mp hByte).1
  unfold Row.bytes
  cases hCovers with
  | single hByte hPlain hOperand hLacks hNext =>
      have hLt := hCode hByte
      have hLeft :
          c.size - offset = c.size - (offset + 1) + 1 := by
        omega
      rw [hOperand, hNext, hOffset, hLeft, List.range'_succ]
      rfl
  | operand hByte hWithin hOperand hLacks hNext =>
      have hLeft :
          c.size - offset = c.size - (offset + 2) + 1 + 1 := by
        omega
      rw [hOperand, hNext, hOffset, hLeft, List.range'_succ,
        List.range'_succ]
      rfl
  | lacking hByte hEnd hOperand hLacks hNext =>
      have hLeft : c.size - offset = 1 := by omega
      have hNone : c.size - (offset + 2) = 0 := by omega
      rw [hOperand, hNext, hOffset, hLeft, hNone]
      rfl

/- A row with all its bytes ends within the code. -/
theorem Covers.next_le
    {row : Row}
    (hCovers : c.Covers offset row)
    (hLacks : row.lacksOperand = false) :
    row.next ≤ c.size := by
  cases hCovers with
  | single hByte _ _ _ hNext =>
      rw [hNext]
      exact (Array.getElem?_eq_some_iff.mp hByte).1
  | operand _ hWithin _ _ hNext =>
      rw [hNext]
      exact hWithin
  | lacking _ _ _ hMissing _ =>
      rw [hMissing] at hLacks
      cases hLacks

/- A row without its operand ends one byte beyond. -/
theorem Covers.next_of_lacks
    {row : Row}
    (hCovers : c.Covers offset row)
    (hLacks : row.lacksOperand = true) :
    row.next = c.size + 1 := by
  cases hCovers with
  | lacking _ hEnd _ _ hNext => rw [hNext, ← hEnd]
  | _ => simp_all

/-
  The rows from an offset on have all bytes from there on,
  each once and in order.
-/
theorem bytes_rowsFrom
    (c : Chunk)
    (previous : Option Nat)
    (offset : Nat) :
    (c.rowsFrom previous offset).flatMap Row.bytes =
      List.range' offset (c.size - offset) := by
  induction hRest : c.size - offset using Nat.strongRecOn
    generalizing previous offset with
  | ind rest ih =>
      subst hRest
      by_cases hLt : offset < c.size
      · have hNext := c.lt_next_rowAfter previous offset
        have hLess :
            c.size - (c.rowAfter previous offset).next <
              c.size - offset := by
          omega
        have hBehind :=
          ih _ hLess (c.line? offset) _ rfl
        have hHere :=
          (covers_rowAfter hLt previous).bytes_append
            (c.offset_rowAfter previous offset)
        rw [rowsFrom_of_lt hLt, List.flatMap_cons, hBehind,
          hHere]
      · have hLe := Nat.le_of_not_lt hLt
        rw [rowsFrom_of_le hLe, Nat.sub_eq_zero_of_le hLe]
        rfl

theorem bytes_rows
    (c : Chunk) :
    c.rows.flatMap Row.bytes = List.range c.size := by
  rw [rows, bytes_rowsFrom, List.range_eq_range',
    Nat.sub_zero]

theorem lt_size_of_mem_rows
    {row : Row}
    (hRow : row ∈ c.rows) :
    row.offset < c.size := by
  have hByte : row.offset ∈ c.rows.flatMap Row.bytes :=
    List.mem_flatMap.mpr ⟨row, hRow, List.mem_cons_self⟩
  rwa [bytes_rows, List.mem_range] at hByte

/- Every row of a listing covers bytes of the code. -/
theorem covers_of_mem_rows
    {row : Row}
    (hRow : row ∈ c.rows) :
    c.Covers row.offset row := by
  rcases exists_rowAfter_of_mem_rowsFrom hRow with
    ⟨previous, hSame⟩
  have hCovers :=
    covers_rowAfter (lt_size_of_mem_rows hRow) previous
  rwa [← hSame] at hCovers

end Chunk

end Abacus

------------------------------------------------------------
-- Walking Over The Code
------------------------------------------------------------

namespace Abacus

namespace Chunk

/-
  The offset that is reached in some steps from row to row,
  whether or not there is code left.
-/
def reachedFrom
    (c : Chunk)
    (offset : Nat) : Nat → Nat
| 0 => offset
| k + 1 => c.reachedFrom (c.rowAt offset).next k

/- The offset that is reached in some steps from the start. -/
def reached
    (c : Chunk)
    (k : Nat) : Nat :=
  c.reachedFrom 0 k

variable {c : Chunk}
variable {offset : Nat}

theorem le_reachedFrom
    (c : Chunk)
    (offset k : Nat) :
    offset ≤ c.reachedFrom offset k := by
  induction k generalizing offset with
  | zero => exact Nat.le_refl offset
  | succ k ih =>
      have hNext :=
        c.lt_next_rowAfter (c.lineBefore? offset) offset
      exact Nat.le_trans (Nat.le_of_lt hNext) (ih _)

/-
  Rows follow each other where the walk goes: there is one
  more row exactly as long as the code is not left.
-/
theorem reachedFrom_lt_iff
    (c : Chunk)
    (previous : Option Nat)
    (offset k : Nat) :
    c.reachedFrom offset k < c.size ↔
      k < (c.rowsFrom previous offset).length := by
  induction k generalizing previous offset with
  | zero =>
      by_cases hLt : offset < c.size
      · simp [rowsFrom_of_lt hLt, reachedFrom, hLt]
      · rw [rowsFrom_of_le (Nat.le_of_not_lt hLt)]
        simp [reachedFrom, hLt]
  | succ k ih =>
      by_cases hLt : offset < c.size
      · rw [rowsFrom_of_lt hLt, List.length_cons,
          Nat.add_lt_add_iff_right, next_rowAfter]
        exact ih _ _
      · have hLe := c.le_reachedFrom offset (k + 1)
        rw [rowsFrom_of_le (Nat.le_of_not_lt hLt)]
        simp only [List.length_nil, Nat.not_lt_zero,
          iff_false]
        omega

theorem lt_size_of_getElem?_rowsFrom
    {previous : Option Nat}
    {k : Nat}
    {row : Row}
    (hRow : (c.rowsFrom previous offset)[k]? = some row) :
    offset < c.size := by
  apply Nat.lt_of_not_le
  intro hLe
  rw [rowsFrom_of_le hLe] at hRow
  cases hRow

theorem getElem?_zero_rowsFrom
    {previous : Option Nat}
    {row : Row}
    (hRow : (c.rowsFrom previous offset)[0]? = some row) :
    row = c.rowAfter previous offset := by
  have hLt := lt_size_of_getElem?_rowsFrom hRow
  rw [rowsFrom_of_lt hLt, List.getElem?_cons_zero] at hRow
  exact (Option.some.inj hRow).symm

theorem reachedFrom_getElem?
    {previous : Option Nat}
    {k : Nat}
    {row : Row}
    (hRow : (c.rowsFrom previous offset)[k]? = some row) :
    row.offset = c.reachedFrom offset k ∧
      row.next = c.reachedFrom offset (k + 1) := by
  induction k generalizing previous offset with
  | zero =>
      rw [getElem?_zero_rowsFrom hRow]
      constructor
      · exact c.offset_rowAfter previous offset
      · exact c.next_rowAfter previous offset
  | succ k ih =>
      have hLt := lt_size_of_getElem?_rowsFrom hRow
      rw [rowsFrom_of_lt hLt, List.getElem?_cons_succ,
        next_rowAfter] at hRow
      exact ih hRow

/-
  A walk that starts within the code ends right behind it,
  or one byte further if an operand is missing.
-/
theorem reachedFrom_length
    (hLe : offset ≤ c.size)
    (previous : Option Nat) :
    c.reachedFrom offset
        (c.rowsFrom previous offset).length =
      if (c.rowsFrom previous offset).getLast?.any
          Row.lacksOperand then
        c.size + 1
      else
        c.size := by
  induction hRest : c.size - offset using Nat.strongRecOn
    generalizing previous offset with
  | ind rest ih =>
      by_cases hLt : offset < c.size
      · have hCovers := covers_rowAfter hLt previous
        have hForward := c.lt_next_rowAfter previous offset
        rw [rowsFrom_of_lt hLt, List.length_cons, reachedFrom,
          ← c.next_rowAfter previous offset]
        cases hLacks :
            (c.rowAfter previous offset).lacksOperand with
        | false =>
            rw [Row.lacks_getLast?_cons hLacks]
            exact ih _ (by omega) (hCovers.next_le hLacks) _
              rfl
        | true =>
            have hNext := hCovers.next_of_lacks hLacks
            rw [rowsFrom_of_le (by omega)]
            simp [reachedFrom, hLacks, hNext]
      · have hEnd : offset = c.size := by omega
        rw [rowsFrom_of_le (Nat.le_of_eq hEnd.symm)]
        exact hEnd

end Chunk

end Abacus

------------------------------------------------------------
-- Covering The Code
------------------------------------------------------------

namespace Abacus

namespace Chunk

variable {c : Chunk}

/- A heading is three lines if the name is in one line. -/
theorem exists_lines_heading
    {name : String}
    (hName : '\n' ∉ name.toList) :
    ∃ lines : List (List Char),
      lines.length = 3 ∧
        (∀ line ∈ lines, '\n' ∉ line) ∧
        (String.join (heading name)).toList =
          lines.flatMap fun line => line ++ ['\n'] := by
  refine
    ⟨[ "chunk: ".toList ++ name.toList,
        "------------------------------------------------".toList,
        "offset\tline\tcol\tinstruction\tvalue".toList ],
      rfl, ?_, ?_⟩
  · intro line hLine
    simp only [List.mem_cons, List.not_mem_nil, or_false]
      at hLine
    rcases hLine with hLine | hLine | hLine
    · rw [hLine, List.mem_append, not_or]
      exact ⟨by decide, hName⟩
    · rw [hLine]
      decide
    · rw [hLine]
      decide
  · simp [heading]

/- A listing is its heading and one line for each row. -/
theorem exists_lines_listing
    {name : String}
    (hName : '\n' ∉ name.toList)
    (c : Chunk) :
    ∃ lines : List (List Char),
      lines.length = 3 + c.rows.length ∧
        lines.drop 3 = c.rows.map Row.line ∧
        (∀ line ∈ lines, '\n' ∉ line) ∧
        (c.listing name).toList =
          lines.flatMap fun line => line ++ ['\n'] := by
  rcases exists_lines_heading hName with
    ⟨lines, hLength, hFree, hText⟩
  refine ⟨lines ++ c.rows.map Row.line, ?_, ?_, ?_, ?_⟩
  · rw [List.length_append, List.length_map, hLength]
  · rw [← hLength, List.drop_left]
  · intro line hLine
    rcases List.mem_append.mp hLine with hLine | hLine
    · exact hFree line hLine
    · rcases List.mem_map.mp hLine with ⟨row, _, hRow⟩
      rw [← hRow]
      exact row.break_not_mem_line
  · rw [listing_eq_append, String.toList_append, hText,
      Row.toList_join_text, List.flatMap_append]

/- A row starts at 0, unless there is no code. -/
theorem offset_head?_rows
    (c : Chunk) :
    c.rows.head?.map Row.offset =
      if c.size = 0 then none else some 0 := by
  by_cases hEmpty : c.size = 0
  · rw [if_pos hEmpty, rows,
      rowsFrom_of_le (Nat.le_of_eq hEmpty)]
    rfl
  · rw [if_neg hEmpty, rows,
      rowsFrom_of_lt (Nat.pos_of_ne_zero hEmpty)]
    simp

/-
  What a row covers can be read off the code: a constant has
  the next byte as its operand, if there is one.
-/
theorem Covers.exists_byte
    {offset : Nat}
    {row : Row}
    (hCovers : c.Covers offset row) :
    ∃ byte,
      c.code[offset]? = some byte ∧
        (row.operand? =
          if byte = Opcode.constant.toByte ∧
              offset + 1 < c.size then
            some (offset + 1)
          else
            none) ∧
        (row.lacksOperand = true ↔
          byte = Opcode.constant.toByte ∧
            offset + 1 = c.size) := by
  cases hCovers with
  | single hByte hPlain hOperand hLacks hNext =>
      refine ⟨_, hByte, ?_, ?_⟩
      · simp [hOperand, hPlain]
      · simp [hLacks, hPlain]
  | operand hByte hWithin hOperand hLacks hNext =>
      refine ⟨_, hByte, ?_, ?_⟩
      · simp [hOperand, hWithin]
      · simp [hLacks, Nat.ne_of_lt hWithin]
  | lacking hByte hEnd hOperand hLacks hNext =>
      refine ⟨_, hByte, ?_, ?_⟩
      · simp [hOperand, hEnd]
      · simp [hLacks, hEnd]

/-
  The rows of any code start at 0 and go on from row to row,
  as long as there is code left. Their bytes are those of
  the code: each is the opcode of one row or the operand of
  one constant, but not both. The walk ends right behind the
  code, or one byte further if the last row lacks its
  operand.
-/
theorem rows_cover_code
    (c : Chunk) :
    c.rows.head?.map Row.offset =
        (if c.size = 0 then none else some 0) ∧
      (c.rows.map Row.offset).Pairwise (· < ·) ∧
      (∀ k, c.reached k < c.size ↔ k < c.rows.length) ∧
      (∀ k row,
        c.rows[k]? = some row →
          row.offset = c.reached k ∧
            row.next = c.reached (k + 1)) ∧
      (∀ row ∈ c.rows,
        ∃ byte,
          c.code[row.offset]? = some byte ∧
            (row.operand? =
              if byte = Opcode.constant.toByte ∧
                  row.offset + 1 < c.size then
                some (row.offset + 1)
              else
                none) ∧
            (row.lacksOperand = true ↔
              byte = Opcode.constant.toByte ∧
                row.offset + 1 = c.size)) ∧
      (∀ i,
        c.rows.countP (fun row => row.offset == i) +
            c.rows.countP
              (fun row => row.operand? == some i) =
          if i < c.size then 1 else 0) ∧
      c.reached c.rows.length =
        (if c.rows.getLast?.any Row.lacksOperand then
          c.size + 1
        else
          c.size) ∧
      c.rows.length +
          c.rows.countP (fun row => row.operand?.isSome) =
        c.size ∧
      ∀ name : String,
        '\n' ∉ name.toList →
          ∃ lines : List (List Char),
            lines.length = 3 + c.rows.length ∧
              lines.drop 3 = c.rows.map Row.line ∧
              (∀ line ∈ lines, '\n' ∉ line) ∧
              (c.listing name).toList =
                lines.flatMap fun line =>
                  line ++ ['\n'] := by
  have hBytes := c.bytes_rows
  refine ⟨c.offset_head?_rows, ?_,
    c.reachedFrom_lt_iff none 0, ?_, ?_, ?_, ?_, ?_, ?_⟩
  · have hOrder := Row.offsets_sublist_bytes c.rows
    rw [hBytes] at hOrder
    exact List.pairwise_lt_range.sublist hOrder
  · intro k row hRow
    exact reachedFrom_getElem? hRow
  · intro row hRow
    exact (covers_of_mem_rows hRow).exists_byte
  · intro i
    rw [← Row.count_bytes, hBytes, List.count_range]
  · exact reachedFrom_length (Nat.zero_le _) none
  · rw [← Row.length_bytes, hBytes, List.length_range]
  · intro name hName
    exact c.exists_lines_listing hName

/-
  A constant of an unknown index, an unknown opcode, and a
  constant without its operand, which is the fourth byte.
-/
theorem rows_cover_code_malformed :
    let c : Chunk := { code := #[0, 9, 200, 0] }
    c.rows.map Row.offset = [0, 2, 3] ∧
      c.reached 2 < c.size ∧
      c.reached 3 = c.size + 1 ∧
      '\n' ∉ "main".toList ∧
      ∃ lines : List (List Char),
        lines.length = 6 ∧
          (∀ line ∈ lines, '\n' ∉ line) ∧
          (c.listing "main").toList =
            lines.flatMap fun line => line ++ ['\n'] := by
  intro c
  rcases rows_cover_code c with
    ⟨_, _, hGoesOn, _, _, _, hEnd, _, hListing⟩
  have hOffsets : c.rows.map Row.offset = [0, 2, 3] := by
    decide +kernel
  have hLast :
      c.rows.getLast?.any Row.lacksOperand = true := by
    decide +kernel
  have hLength : c.rows.length = 3 := by
    rw [← List.length_map Row.offset, hOffsets]
    rfl
  have hName : '\n' ∉ "main".toList := by decide
  rw [hLength, if_pos hLast] at hEnd
  rcases hListing "main" hName with
    ⟨lines, hLines, _, hFree, hText⟩
  rw [hLength] at hLines
  refine ⟨hOffsets, ?_, hEnd, hName, lines, hLines, hFree,
    hText⟩
  exact (hGoesOn 2).mpr (by omega)

end Chunk

end Abacus
