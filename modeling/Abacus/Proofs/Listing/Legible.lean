import Abacus.Proofs.Chunk.Growth
import Abacus.Proofs.Listing.Agreement
import Abacus.Proofs.Listing.Table
import Abacus.Proofs.Program.Encoding

/-
  What a listing tells about its chunk.

  The cells of a row tell its instruction, except for which
  of several constants with the same text it pushes. A bar
  in the place of a line stands for the line of the row
  above, so the rows are resolved from the first one on. All
  that two chunks with the same listing can differ in are
  the indices of constants with the same text, and the
  positions of operands.

  Main declarations:
    * `Row.Body.Alike` and `Row.Body.alike_iff`
    * `Chunk.SameRow` and `Chunk.cells_rowAfter_iff`
    * `Chunk.sameRows_of_cells`
    * `Chunk.listing_eq_iff`
-/

------------------------------------------------------------
-- Rows That Look Alike
------------------------------------------------------------

namespace Abacus

namespace Opcode

theorem mnemonic_inj
    {op other : Opcode}
    (hSame : op.mnemonic = other.mnemonic) :
    op = other := by
  cases op with
  | binary operator =>
      cases other with
      | binary operator' =>
          cases operator <;> cases operator' <;>
            simp_all [mnemonic]
      | _ => cases operator <;> simp [mnemonic] at hSame
  | _ =>
      cases other with
      | binary operator =>
          cases operator <;> simp [mnemonic] at hSame
      | _ => simp_all [mnemonic]

theorem mnemonic_ne_unknown
    (op : Opcode)
    (n : Nat) :
    op.mnemonic ≠ "Unknown opcode " ++ Nat.repr n := by
  intro hSame
  have hChars := congrArg String.toList hSame
  cases op with
  | binary operator =>
      cases operator <;> simp [mnemonic] at hChars
  | _ => simp [mnemonic] at hChars

end Opcode

namespace Row

namespace Body

/-
  Instructions that a row shows alike. They differ at most
  in constants with the same text.
-/
inductive Alike :
    Body → Body → Prop
| plain
    (op : Opcode) :
    Alike (.plain op) (.plain op)
| constant
    {value other : Number}
    (hText : Number.text value = Number.text other) :
    Alike (.constant value) (.constant other)
| invalidConstant
    (index : UInt8) :
    Alike (.invalidConstant index) (.invalidConstant index)
| missingOperand :
    Alike .missingOperand .missingOperand
| unknown
    (byte : UInt8) :
    Alike (.unknown byte) (.unknown byte)

/- The text of a number is no remark about an operand. -/
theorem number_ne_remark
    {remark : String}
    (hRemark : '<' ∈ remark.toList)
    (value : Number) :
    Number.text value ≠ remark := by
  intro hSame
  rw [← hSame] at hRemark
  exact Number.not_mem_text (by decide) value hRemark

theorem invalid_ne_missing
    (index : UInt8) :
    "<invalid constant #" ++ Nat.repr index.toNat ++ ">" ≠
      "<missing operand>" := by
  intro hSame
  have hChars := congrArg String.toList hSame
  simp at hChars

/- A byte is determined by its numeral. -/
theorem byte_of_repr_eq
    {byte other : UInt8}
    (hRepr :
      Nat.repr byte.toNat = Nat.repr other.toNat) :
    byte = other :=
  UInt8.toNat_inj.mp (Text.eq_of_repr_eq hRepr)

/- Rows with the same cells show the same operand. -/
theorem operand_of_cells_eq
    {mnemonic operand other : String}
    (hCells : [mnemonic, operand] = [mnemonic, other]) :
    operand = other :=
  (List.cons.inj (List.cons.inj hCells).2).1

/- What is shown alike has the same cells, and conversely. -/
theorem alike_iff
    {body other : Body} :
    body.Alike other ↔ body.cells = other.cells := by
  constructor
  · intro hAlike
    cases hAlike with
    | constant hText => simp [cells, hText]
    | _ => rfl
  · intro hCells
    -- No number shows a '<', so that no constant looks like
    -- a remark about one.
    cases body with
    | plain op =>
        cases other with
        | plain op' =>
            rw [Opcode.mnemonic_inj (List.cons.inj hCells).1]
            exact .plain op'
        | unknown byte =>
            exact absurd (List.cons.inj hCells).1
              (op.mnemonic_ne_unknown _)
        | _ => simp [cells] at hCells
    | constant value =>
        cases other with
        | constant value' =>
            exact .constant (operand_of_cells_eq hCells)
        | invalidConstant index =>
            exact absurd (operand_of_cells_eq hCells)
              (number_ne_remark (by simp) value)
        | missingOperand =>
            exact absurd (operand_of_cells_eq hCells)
              (number_ne_remark (by simp) value)
        | _ => simp [cells] at hCells
    | invalidConstant index =>
        cases other with
        | constant value =>
            exact absurd (operand_of_cells_eq hCells).symm
              (number_ne_remark (by simp) value)
        | invalidConstant index' =>
            have hByte : index = index' :=
              byte_of_repr_eq (by simpa [cells] using hCells)
            rw [hByte]
            exact .invalidConstant index'
        | missingOperand =>
            exact absurd (operand_of_cells_eq hCells)
              (invalid_ne_missing index)
        | _ => simp [cells] at hCells
    | missingOperand =>
        cases other with
        | constant value =>
            exact absurd (operand_of_cells_eq hCells).symm
              (number_ne_remark (by simp) value)
        | invalidConstant index =>
            exact absurd (operand_of_cells_eq hCells).symm
              (invalid_ne_missing index)
        | missingOperand => exact .missingOperand
        | _ => simp [cells] at hCells
    | unknown byte =>
        cases other with
        | plain op =>
            exact absurd (List.cons.inj hCells).1.symm
              (op.mnemonic_ne_unknown _)
        | unknown byte' =>
            have hByte : byte = byte' :=
              byte_of_repr_eq (by simpa [cells] using hCells)
            rw [hByte]
            exact .unknown byte'
        | _ => simp [cells] at hCells

/- The first byte of an instruction. -/
def byte :
    Body → UInt8
| .plain op => op.toByte
| .unknown byte => byte
| _ => Opcode.constant.toByte

theorem Alike.byte_eq
    {body other : Body}
    (hAlike : body.Alike other) :
    body.byte = other.byte := by
  cases hAlike <;> rfl

theorem Alike.width_eq
    {body other : Body}
    (hAlike : body.Alike other) :
    body.width = other.width := by
  cases hAlike <;> rfl

theorem Alike.missing_iff
    {body other : Body}
    (hAlike : body.Alike other) :
    body = .missingOperand ↔ other = .missingOperand := by
  cases hAlike <;> simp

end Body

end Row

end Abacus

------------------------------------------------------------
-- Chunks With The Same Rows
------------------------------------------------------------

namespace Abacus

namespace Chunk

variable {c d : Chunk}
variable {offset : Nat}

/-
  Two constant instructions at one offset push constants of
  the same text, or have the same index that is not in their
  pools, or both lack an operand.
-/
def SameOperand
    (c d : Chunk)
    (offset : Nat) : Prop :=
  (∃ index index' value value',
    c.code[offset + 1]? = some index ∧
      c.constant? index.toNat = some value ∧
      d.code[offset + 1]? = some index' ∧
      d.constant? index'.toNat = some value' ∧
      Number.text value = Number.text value') ∨
  (∃ index,
    c.code[offset + 1]? = some index ∧
      c.constant? index.toNat = none ∧
      d.code[offset + 1]? = some index ∧
      d.constant? index.toNat = none) ∨
  (c.code[offset + 1]? = none ∧ d.code[offset + 1]? = none)

/-
  Two chunks have the same opcode byte at an offset, from
  the same line and column, with the same operand if that is
  a constant.
-/
structure SameRow
    (c d : Chunk)
    (offset : Nat) : Prop where
  byte :
    ∃ byte,
      c.code[offset]? = some byte ∧
        d.code[offset]? = some byte
  position :
    ∃ position,
      c.position? offset = some position ∧
        d.position? offset = some position
  operand :
    c.code[offset]? = some Opcode.constant.toByte →
      c.SameOperand d offset

/- A body tells the byte that it was read from. -/
theorem byte_bodyAt
    (c : Chunk)
    (offset : Nat)
    (byte : UInt8) :
    (c.bodyAt offset byte).byte = byte := by
  unfold bodyAt
  cases hOp : Opcode.ofByte? byte with
  | none => rfl
  | some op =>
      rw [← Opcode.toByte_of_ofByte? hOp]
      cases op with
      | constant =>
          dsimp only
          unfold constantAt
          split
          · rfl
          · split <;> rfl
      | _ => rfl

theorem bodyAt_constant
    (c : Chunk)
    (offset : Nat) :
    c.bodyAt offset Opcode.constant.toByte =
      c.constantAt offset :=
  rfl

/- Only a constant looks at the rest of the chunk. -/
theorem bodyAt_of_ne
    {byte : UInt8}
    (hPlain : byte ≠ Opcode.constant.toByte) :
    c.bodyAt offset byte = d.bodyAt offset byte := by
  unfold bodyAt
  cases hOp : Opcode.ofByte? byte with
  | none => rfl
  | some op =>
      cases op with
      | constant =>
          exact absurd (Opcode.toByte_of_ofByte? hOp).symm
            hPlain
      | _ => rfl

/- All that a constant instruction can look like. -/
theorem constantAt_cases
    (c : Chunk)
    (offset : Nat) :
    (∃ index value,
        c.code[offset + 1]? = some index ∧
          c.constant? index.toNat = some value ∧
          c.constantAt offset = .constant value) ∨
      (∃ index,
        c.code[offset + 1]? = some index ∧
          c.constant? index.toNat = none ∧
          c.constantAt offset = .invalidConstant index) ∨
      (c.code[offset + 1]? = none ∧
        c.constantAt offset = .missingOperand) := by
  unfold constantAt
  cases hIndex : c.code[offset + 1]? with
  | none => exact .inr (.inr ⟨rfl, rfl⟩)
  | some index =>
      dsimp only
      cases hValue : c.constant? index.toNat with
      | none =>
          exact .inr (.inl ⟨index, rfl, hValue, rfl⟩)
      | some value =>
          exact .inl ⟨index, value, rfl, hValue, rfl⟩

/- Constants look alike exactly if their operands do. -/
theorem alike_constantAt_iff :
    (c.constantAt offset).Alike (d.constantAt offset) ↔
      c.SameOperand d offset := by
  constructor
  · intro hAlike
    rcases c.constantAt_cases offset with
      ⟨index, value, hIndex, hValue, hBody⟩ |
        ⟨index, hIndex, hValue, hBody⟩ | ⟨hIndex, hBody⟩
    all_goals
      rcases d.constantAt_cases offset with
        ⟨index', value', hIndex', hValue', hBody'⟩ |
          ⟨index', hIndex', hValue', hBody'⟩ |
          ⟨hIndex', hBody'⟩
    all_goals
      rw [hBody, hBody'] at hAlike
      cases hAlike
    · rename_i hText
      exact .inl ⟨index, index', value, value', hIndex,
        hValue, hIndex', hValue', hText⟩
    · exact .inr (.inl ⟨index, hIndex, hValue, hIndex',
        hValue'⟩)
    · exact .inr (.inr ⟨hIndex, hIndex'⟩)
  · rintro (⟨index, index', value, value', hLeft, hValue,
      hRight, hValue', hText⟩ |
        ⟨index, hLeft, hValue, hRight, hValue'⟩ |
        ⟨hLeft, hRight⟩)
    · simp only [constantAt, hLeft, hValue, hRight, hValue']
      exact .constant hText
    · simp only [constantAt, hLeft, hValue, hRight, hValue']
      exact .invalidConstant index
    · simp only [constantAt, hLeft, hRight]
      exact .missingOperand

/-
  Instructions look alike exactly if they start with the
  same byte and, if that is a constant, have the same
  operand.
-/
theorem alike_bodyAt_iff
    {byte byte' : UInt8} :
    (c.bodyAt offset byte).Alike (d.bodyAt offset byte') ↔
      byte = byte' ∧
        (byte = Opcode.constant.toByte →
          c.SameOperand d offset) := by
  constructor
  · intro hAlike
    have hByte := hAlike.byte_eq
    rw [byte_bodyAt, byte_bodyAt] at hByte
    subst hByte
    refine ⟨rfl, ?_⟩
    intro hConstant
    subst hConstant
    exact alike_constantAt_iff.mp hAlike
  · rintro ⟨hByte, hOperand⟩
    subst hByte
    by_cases hConstant : byte = Opcode.constant.toByte
    · have hAlike :=
        alike_constantAt_iff.mpr (hOperand hConstant)
      subst hConstant
      exact hAlike
    · rw [bodyAt_of_ne (d := d) hConstant]
      exact Row.Body.alike_iff.mpr rfl

theorem width_of_ne
    {byte : UInt8}
    (hPlain : byte ≠ Opcode.constant.toByte) :
    (c.bodyAt offset byte).width = 1 := by
  unfold bodyAt
  cases hOp : Opcode.ofByte? byte with
  | none => rfl
  | some op =>
      cases op with
      | constant =>
          exact absurd (Opcode.toByte_of_ofByte? hOp).symm
            hPlain
      | _ => rfl

/-
  A row stays within the code, unless it is a constant whose
  operand is missing.
-/
theorem end_of_bodyAt
    {byte : UInt8}
    (hByte : c.code[offset]? = some byte) :
    (c.bodyAt offset byte = .missingOperand ∧
        c.size = offset + 1) ∨
      (c.bodyAt offset byte ≠ .missingOperand ∧
        offset + (c.bodyAt offset byte).width ≤ c.size) := by
  have hLt : offset < c.size :=
    (Array.getElem?_eq_some_iff.mp hByte).1
  by_cases hConstant : byte = Opcode.constant.toByte
  · subst hConstant
    rw [bodyAt_constant]
    rcases c.constantAt_cases offset with
      ⟨index, value, hIndex, _, hBody⟩ |
        ⟨index, hIndex, _, hBody⟩ | ⟨hIndex, hBody⟩
    · rw [hBody]
      exact .inr ⟨by simp,
        (Array.getElem?_eq_some_iff.mp hIndex).1⟩
    · rw [hBody]
      exact .inr ⟨by simp,
        (Array.getElem?_eq_some_iff.mp hIndex).1⟩
    · have hEnd : c.size ≤ offset + 1 :=
        Array.getElem?_eq_none_iff.mp hIndex
      exact .inl ⟨hBody, by omega⟩
  · right
    refine ⟨?_, ?_⟩
    · intro hMissing
      apply hConstant
      rw [← c.byte_bodyAt offset byte, hMissing]
      rfl
    · rw [width_of_ne hConstant]
      exact hLt

/- The places of two rows below the same line. -/
theorem cells_placeAfter_iff
    {position position' : Position}
    (hLeft : c.position? offset = some position)
    (hRight : d.position? offset = some position')
    (previous : Option Nat) :
    (c.placeAfter previous offset).cells =
        (d.placeAfter previous offset).cells ↔
      position = position' := by
  constructor
  · intro hCells
    unfold placeAfter at hCells
    rw [hLeft, hRight] at hCells
    dsimp only at hCells
    by_cases hBar : previous = some position.line
    · rw [if_pos hBar] at hCells
      by_cases hBar' : previous = some position'.line
      · -- Both lines are the line above.
        rw [if_pos hBar'] at hCells
        rw [hBar] at hBar'
        simp only [Row.Place.cells, List.cons.injEq,
          true_and, and_true] at hCells
        rw [Position.mk.injEq]
        exact ⟨Option.some.inj hBar',
          Text.padded_inj hCells⟩
      · rw [if_neg hBar'] at hCells
        exact absurd (List.cons.inj hCells).1.symm
          (Row.cell_ne_bar _)
    · rw [if_neg hBar] at hCells
      by_cases hBar' : previous = some position'.line
      · rw [if_pos hBar'] at hCells
        exact absurd (List.cons.inj hCells).1
          (Row.cell_ne_bar _)
      · rw [if_neg hBar'] at hCells
        simp only [Row.Place.cells, List.cons.injEq,
          and_true] at hCells
        rw [Position.mk.injEq]
        exact ⟨Text.padded_inj hCells.1,
          Text.padded_inj hCells.2⟩
  · intro hSame
    subst hSame
    rw [placeAfter, placeAfter, hLeft, hRight]

/-
  Two rows below the same line have the same cells exactly
  if they are of one position and look alike.
-/
theorem cells_rowAfter_iff
    {byte byte' : UInt8}
    {position position' : Position}
    (hLeft : c.code[offset]? = some byte)
    (hRight : d.code[offset]? = some byte')
    (hPosition : c.position? offset = some position)
    (hPosition' : d.position? offset = some position')
    (previous : Option Nat) :
    (c.rowAfter previous offset).cells =
        (d.rowAfter previous offset).cells ↔
      position = position' ∧
        (c.bodyAt offset byte).Alike
          (d.bodyAt offset byte') := by
  have hRow :
      c.rowAfter previous offset =
        .code offset (c.placeAfter previous offset)
          (c.bodyAt offset byte) := by
    simp [rowAfter, hLeft]
  have hRow' :
      d.rowAfter previous offset =
        .code offset (d.placeAfter previous offset)
          (d.bodyAt offset byte') := by
    simp [rowAfter, hRight]
  have hLength :
      (c.placeAfter previous offset).cells.length =
        (d.placeAfter previous offset).cells.length := by
    rw [Row.Place.length_cells, Row.Place.length_cells]
  rw [hRow, hRow', Row.Body.alike_iff,
    ← cells_placeAfter_iff hPosition hPosition' previous]
  simp only [Row.cells, List.cons.injEq, true_and]
  constructor
  · intro hCells
    exact List.append_inj hCells hLength
  · rintro ⟨hPlace, hBody⟩
    rw [hPlace, hBody]

end Chunk

end Abacus

------------------------------------------------------------
-- Chunks With The Same Listing
------------------------------------------------------------

namespace Abacus

namespace Chunk

variable {c d : Chunk}
variable {offset : Nat}
variable {previous : Option Nat}

/- A placed chunk has a byte and a position at an offset. -/
theorem Placed.exists_at
    (hPlaced : c.Placed)
    (hLt : offset < c.size) :
    ∃ byte position,
      c.code[offset]? = some byte ∧
        c.position? offset = some position := by
  have hPosition : offset < c.positions.size := by
    unfold Placed at hPlaced
    omega
  exact ⟨_, _, Array.getElem?_eq_getElem hLt,
    Array.getElem?_eq_getElem hPosition⟩

/-
  An offset that two walks have reached: both are within the
  code, or both have just left it behind a missing operand.
-/
def InStep
    (c d : Chunk)
    (offset : Nat) : Prop :=
  (offset ≤ c.size ∧ offset ≤ d.size) ∨
    (c.size + 1 = offset ∧ d.size + 1 = offset)

/- Rows with the same cells keep two walks in step. -/
theorem sameRow_of_cells
    (hPlaced : c.Placed)
    (hPlaced' : d.Placed)
    (hLt : offset < c.size)
    (hLt' : offset < d.size)
    (hCells :
      (c.rowAfter previous offset).cells =
        (d.rowAfter previous offset).cells) :
    c.SameRow d offset ∧
      c.line? offset = d.line? offset ∧
      (c.rowAfter previous offset).next =
        (d.rowAfter previous offset).next ∧
      c.InStep d (c.rowAfter previous offset).next := by
  rcases hPlaced.exists_at hLt with
    ⟨byte, position, hByte, hPosition⟩
  rcases hPlaced'.exists_at hLt' with
    ⟨byte', position', hByte', hPosition'⟩
  rcases (cells_rowAfter_iff hByte hByte' hPosition
      hPosition' previous).mp hCells with
    ⟨hSame, hAlike⟩
  subst hSame
  rcases alike_bodyAt_iff.mp hAlike with
    ⟨hSame, hOperand⟩
  subst hSame
  have hNext :
      (c.rowAfter previous offset).next =
        offset + (c.bodyAt offset byte).width := by
    simp [rowAfter, hByte, Row.next]
  have hNext' :
      (d.rowAfter previous offset).next =
        offset + (d.bodyAt offset byte).width := by
    simp [rowAfter, hByte', Row.next]
  refine ⟨⟨⟨byte, hByte, hByte'⟩,
    ⟨position, hPosition, hPosition'⟩, ?_⟩, ?_, ?_, ?_⟩
  · intro hConstant
    rw [hByte] at hConstant
    exact hOperand (Option.some.inj hConstant)
  · rw [line?, line?, hPosition, hPosition']
  · rw [hNext, hNext', hAlike.width_eq]
  · rw [hNext]
    rcases end_of_bodyAt hByte with
      ⟨hMissing, hEnd⟩ | ⟨hPresent, hWithin⟩
    all_goals
      rcases end_of_bodyAt hByte' with
        ⟨hMissing', hEnd'⟩ | ⟨hPresent', hWithin'⟩
    · right
      rw [hMissing, hEnd, hEnd']
      exact ⟨rfl, rfl⟩
    · exact absurd (hAlike.missing_iff.mp hMissing) hPresent'
    · exact absurd (hAlike.missing_iff.mpr hMissing') hPresent
    · left
      rw [← hAlike.width_eq] at hWithin'
      exact ⟨hWithin, hWithin'⟩

/-
  Walks with the same cells visit the same rows. The
  induction is on the code that is left: the rows of one
  offset tell its line, which resolves a bar in the next
  rows, and where these are.
-/
theorem sameRows_of_cells
    (hPlaced : c.Placed)
    (hPlaced' : d.Placed)
    (hStep : c.InStep d offset)
    (hCells :
      (c.rowsFrom previous offset).map Row.cells =
        (d.rowsFrom previous offset).map Row.cells) :
    c.size = d.size ∧
      (c.rowsFrom previous offset).map Row.offset =
        (d.rowsFrom previous offset).map Row.offset ∧
      ∀ row ∈ c.rowsFrom previous offset,
        c.SameRow d row.offset := by
  induction hRest : c.size - offset using Nat.strongRecOn
    generalizing previous offset with
  | ind rest ih =>
      by_cases hLt : offset < c.size
      · rw [rowsFrom_of_lt hLt] at hCells ⊢
        by_cases hLt' : offset < d.size
        · rw [rowsFrom_of_lt hLt'] at hCells ⊢
          rcases List.cons.inj hCells with ⟨hHead, hTail⟩
          rcases sameRow_of_cells hPlaced hPlaced' hLt hLt'
              hHead with
            ⟨hRow, hLine, hNext, hStep'⟩
          rw [← hNext, ← hLine] at hTail ⊢
          have hForward := c.lt_next_rowAfter previous offset
          rcases ih _ (by omega) hStep' hTail rfl with
            ⟨hSize, hOffsets, hRows⟩
          refine ⟨hSize, ?_, ?_⟩
          · rw [List.map_cons, List.map_cons, hOffsets,
              offset_rowAfter, offset_rowAfter]
          · intro row hMem
            rcases List.mem_cons.mp hMem with hHere | hThere
            · rw [hHere, offset_rowAfter]
              exact hRow
            · exact hRows row hThere
        · rw [rowsFrom_of_le (Nat.le_of_not_lt hLt')] at hCells
          cases hCells
      · rw [rowsFrom_of_le (Nat.le_of_not_lt hLt)] at hCells ⊢
        by_cases hLt' : offset < d.size
        · rw [rowsFrom_of_lt hLt'] at hCells
          cases hCells
        · rw [rowsFrom_of_le (Nat.le_of_not_lt hLt')]
          refine ⟨?_, rfl, by simp⟩
          unfold InStep at hStep
          omega

/- Conversely, the same rows have the same text. -/
theorem SameRow.row_eq
    (hRow : c.SameRow d offset)
    (previous : Option Nat) :
    (c.rowAfter previous offset).text =
        (d.rowAfter previous offset).text ∧
      (c.rowAfter previous offset).next =
        (d.rowAfter previous offset).next ∧
      c.line? offset = d.line? offset := by
  rcases hRow with
    ⟨⟨byte, hByte, hByte'⟩,
      ⟨position, hPosition, hPosition'⟩, hOperand⟩
  have hAlike :
      (c.bodyAt offset byte).Alike
        (d.bodyAt offset byte) := by
    apply alike_bodyAt_iff.mpr
    refine ⟨rfl, ?_⟩
    intro hConstant
    rw [hConstant] at hByte
    exact hOperand hByte
  refine ⟨?_, ?_, ?_⟩
  · apply Row.text_of_cells_eq
    exact (cells_rowAfter_iff hByte hByte' hPosition
      hPosition' previous).mpr ⟨rfl, hAlike⟩
  · simp only [rowAfter, hByte, hByte', Row.next,
      hAlike.width_eq]
  · rw [line?, line?, hPosition, hPosition']

theorem text_of_sameRows
    (hSize : c.size = d.size)
    (hRows :
      ∀ row ∈ c.rowsFrom previous offset,
        c.SameRow d row.offset) :
    (c.rowsFrom previous offset).map Row.text =
      (d.rowsFrom previous offset).map Row.text := by
  induction hRest : c.size - offset using Nat.strongRecOn
    generalizing previous offset with
  | ind rest ih =>
      by_cases hLt : offset < c.size
      · have hLt' : offset < d.size := by omega
        rw [rowsFrom_of_lt hLt] at hRows ⊢
        rw [rowsFrom_of_lt hLt']
        have hRow := hRows _ List.mem_cons_self
        rw [offset_rowAfter] at hRow
        rcases hRow.row_eq previous with
          ⟨hText, hNext, hLine⟩
        have hForward := c.lt_next_rowAfter previous offset
        have hTail :=
          ih _ (by omega)
            (fun row hMem =>
              hRows row (List.mem_cons_of_mem _ hMem))
            rfl
        rw [List.map_cons, List.map_cons, hText, hTail,
          hNext, hLine]
      · have hEnd' : d.size ≤ offset := by omega
        rw [rowsFrom_of_le (Nat.le_of_not_lt hLt),
          rowsFrom_of_le hEnd']

/-
  Two chunks have the same listing exactly if they have the
  same size and the same rows, and at each row the same
  opcode byte, the same line and column, and operands that
  show the same. Only which index a constant has, and where
  an operand comes from, cannot be told.
-/
theorem listing_eq_iff
    (hReachable : c.Reachable)
    (hReachable' : d.Reachable)
    (name : String) :
    c.listing name = d.listing name ↔
      c.size = d.size ∧
        c.rows.map Row.offset = d.rows.map Row.offset ∧
        ∀ row ∈ c.rows, c.SameRow d row.offset := by
  constructor
  · intro hSame
    have hStart : c.InStep d 0 :=
      .inl ⟨Nat.zero_le _, Nat.zero_le _⟩
    exact sameRows_of_cells hReachable.placed
      hReachable'.placed hStart (cells_of_listing_eq hSame)
  · rintro ⟨hSize, _, hRows⟩
    have hText :
        c.rows.map Row.text = d.rows.map Row.text :=
      text_of_sameRows hSize hRows
    rw [listing, listing, listingLines, listingLines, hText]

/-
  The two entries of the pool have the same text, so the
  listing does not tell which of them is pushed. Neither
  does it tell that one operand is from another line.
-/
theorem listing_eq_iff_operand :
    ∃ c d : Chunk,
      c.Reachable ∧
        d.Reachable ∧
        c.code = #[0, 0, 9] ∧
        d.code = #[0, 1, 9] ∧
        c.listing "c" = d.listing "c" ∧
        ∀ row ∈ c.rows, c.SameRow d row.offset := by
  have hSame :
      (ofEdits
          [.constant 1.5, .constant 1.5, .byte 0 ⟨3, 1⟩,
            .byte 0 ⟨3, 1⟩, .byte 9 ⟨3, 4⟩]).listing "c" =
        (ofEdits
          [.constant 1.5, .constant 1.5, .byte 0 ⟨3, 1⟩,
            .byte 1 ⟨8, 1⟩, .byte 9 ⟨3, 4⟩]).listing "c" := by
    decide +kernel
  have hRows :=
    (listing_eq_iff ⟨_, rfl⟩ ⟨_, rfl⟩ "c").mp hSame
  exact ⟨_, _, ⟨_, rfl⟩, ⟨_, rfl⟩, rfl, rfl, hSame,
    hRows.2.2⟩

end Chunk

end Abacus
