import Abacus.Proofs.Chunk.AppendOnly
import Abacus.Proofs.Chunk.SafeEdits
import Abacus.Proofs.Listing.Agreement
import Abacus.Proofs.Text.Numeral

/-
  Code is read back as it was built.

  A chunk that is built by whole instructions spells them
  out: from each boundary on, the bytes read as the rest of
  the instructions, up to the very end of the code. What is
  added later leaves that alone, since a constant keeps its
  index while the pool grows. So reading the code gives the
  instructions back, each with its constant and with its
  position on all of its bytes, and the listing has a row
  for each of them.

  Main declarations:
    * `Emission` and `Edit.emission?`
    * `Chunk.readFrom`
    * `Chunk.Spells` and `Chunk.Spells.extend`
    * `Chunk.Spells.assembleFrom`
    * `Chunk.readFrom_assembled`
-/

------------------------------------------------------------
-- Emissions
------------------------------------------------------------

namespace Abacus

/- An instruction, and the position it was emitted at. -/
structure Emission where
  instruction : Instruction
  position : Position
deriving DecidableEq

namespace Opcode

/- The instruction of an opcode, if it has no operand. -/
def instruction? :
    Opcode → Option Instruction
| .constant => none
| .negate => some .negate
| .binary operator => some (.binary operator)
| .ret => some .ret

theorem exists_instruction
    {op : Opcode}
    (hOp : op ≠ .constant) :
    ∃ i : Instruction, op.instruction? = some i := by
  cases op with
  | constant => exact absurd rfl hOp
  | negate => exact ⟨.negate, rfl⟩
  | binary operator => exact ⟨.binary operator, rfl⟩
  | ret => exact ⟨.ret, rfl⟩

end Opcode

namespace Edit

/- The instruction that an edit emits. -/
def emission? :
    Edit → Option Emission
| .byte _ _ => none
| .op opcode position =>
    opcode.instruction?.map fun i => ⟨i, position⟩
| .constant _ => none
| .push value position => some ⟨.push value, position⟩

end Edit

end Abacus

------------------------------------------------------------
-- Reading Code
------------------------------------------------------------

namespace Abacus

/- An instruction of the code, and the position of each byte. -/
structure Reading where
  instruction : Instruction
  positions : List (Option Position)
deriving DecidableEq

namespace Emission

/- The reading of an instruction that was emitted. -/
def reading
    (e : Emission) : Reading where
  instruction := e.instruction
  positions :=
    List.replicate e.instruction.width (some e.position)

end Emission

namespace Chunk

/-
  The instruction at an offset. The byte there is its opcode
  and the next one, if it is a constant, the index of it.
-/
def instructionAt?
    (c : Chunk)
    (offset : Nat) : Option Instruction :=
  match c.code[offset]?.bind Opcode.ofByte? with
  | none => none
  | some .constant =>
      (c.code[offset + 1]?.bind fun index =>
        c.constant? index.toNat).map .push
  | some op => op.instruction?

/-
  An instruction is there if its opcode is, and if the index
  of its constant is.
-/
theorem instructionAt?_eq_some_iff
    {c : Chunk}
    {offset : Nat}
    {i : Instruction} :
    c.instructionAt? offset = some i ↔
      c.code[offset]? = some i.opcode.toByte ∧
        ∀ value,
          i = .push value →
            ∃ index,
              c.code[offset + 1]? = some index ∧
                c.constant? index.toNat = some value := by
  constructor
  · intro hRead
    unfold instructionAt? at hRead
    cases hByte : c.code[offset]? with
    | none => simp [hByte] at hRead
    | some byte =>
        cases hOp : Opcode.ofByte? byte with
        | none => simp [hByte, hOp] at hRead
        | some op =>
            have hSame := Opcode.toByte_of_ofByte? hOp
            subst hSame
            simp only [hByte, Option.bind_some, hOp] at hRead
            cases op with
            | constant =>
                rcases Option.map_eq_some_iff.mp hRead with
                  ⟨value, hOperand, hPush⟩
                subst hPush
                refine ⟨rfl, ?_⟩
                intro other hOther
                cases hOther
                exact Option.bind_eq_some_iff.mp hOperand
            | _ =>
                cases hRead
                exact ⟨rfl, by simp⟩
  · rintro ⟨hByte, hOperand⟩
    cases i with
    | push value =>
        rcases hOperand value rfl with
          ⟨index, hIndex, hValue⟩
        simp [instructionAt?, hByte, Instruction.opcode,
          hIndex, hValue]
    | _ =>
        simp [instructionAt?, hByte, Instruction.opcode,
          Opcode.instruction?]

theorem lt_size_of_instructionAt?
    {c : Chunk}
    {offset : Nat}
    {i : Instruction}
    (hRead : c.instructionAt? offset = some i) :
    offset < c.size := by
  have hByte := (instructionAt?_eq_some_iff.mp hRead).1
  exact (Array.getElem?_eq_some_iff.mp hByte).1

/-
  Read instructions from an offset on, as long as there are
  any, and give the offset where that ends.
-/
def readFrom
    (c : Chunk)
    (offset : Nat) : List Reading × Nat :=
  match _h : c.instructionAt? offset with
  | none => ([], offset)
  | some i =>
      let positions :=
        (List.range i.width).map fun k =>
          c.position? (offset + k)
      let (readings, stop) := c.readFrom (offset + i.width)
      (⟨i, positions⟩ :: readings, stop)
termination_by c.size - offset
decreasing_by
  have hLt := lt_size_of_instructionAt? _h
  have hWidth := i.width_pos
  omega

theorem readFrom_of_none
    {c : Chunk}
    {offset : Nat}
    (hNone : c.instructionAt? offset = none) :
    c.readFrom offset = ([], offset) := by
  rw [readFrom]
  split <;> simp_all

theorem readFrom_of_some
    {c : Chunk}
    {offset : Nat}
    {i : Instruction}
    (hRead : c.instructionAt? offset = some i) :
    c.readFrom offset =
      (⟨i, (List.range i.width).map fun k =>
            c.position? (offset + k)⟩ ::
          (c.readFrom (offset + i.width)).1,
        (c.readFrom (offset + i.width)).2) := by
  rw [readFrom]
  split <;> simp_all

end Chunk

end Abacus

------------------------------------------------------------
-- Spelling
------------------------------------------------------------

namespace Abacus

namespace Chunk

/-
  From an offset on, the code spells out instructions to its
  very end, with their positions on all of their bytes.
-/
inductive Spells
    (c : Chunk) : Nat → List Emission → Prop
| nil :
    Spells c c.size []
| cons
    {offset : Nat}
    {e : Emission}
    {es : List Emission}
    (hRead : c.instructionAt? offset = some e.instruction)
    (hPlace :
      ∀ k < e.instruction.width,
        c.position? (offset + k) = some e.position)
    (hRest : Spells c (offset + e.instruction.width) es) :
    Spells c offset (e :: es)

variable {c d : Chunk}
variable {offset : Nat}
variable {es more : List Emission}

/- An instruction stays what it is as the chunk grows. -/
theorem instructionAt?_of_growsTo
    {i : Instruction}
    (hGrows : c.GrowsTo d)
    (hRead : c.instructionAt? offset = some i) :
    d.instructionAt? offset = some i := by
  rw [instructionAt?_eq_some_iff] at hRead ⊢
  rcases hRead with ⟨hByte, hOperand⟩
  refine ⟨hGrows.code_eq_some hByte, ?_⟩
  intro value hPush
  rcases hOperand value hPush with ⟨index, hIndex, hValue⟩
  exact ⟨index, hGrows.code_eq_some hIndex,
    hGrows.constant?_eq_some hValue⟩

/-
  What a chunk spells out is in front of what is spelled out
  by the bytes that it grew by.
-/
theorem Spells.extend
    (hSpells : c.Spells offset es)
    (hGrows : c.GrowsTo d)
    (hMore : d.Spells c.size more) :
    d.Spells offset (es ++ more) := by
  induction hSpells with
  | nil => exact hMore
  | cons hRead hPlace hRest ih =>
      apply Spells.cons
      · exact instructionAt?_of_growsTo hGrows hRead
      · intro k hLt
        exact hGrows.position?_eq_some (hPlace k hLt)
      · exact ih

/- Reading gives back what is spelled out. -/
theorem Spells.readFrom_eq
    (hSpells : c.Spells offset es) :
    c.readFrom offset = (es.map Emission.reading, c.size) := by
  induction hSpells with
  | nil =>
      apply readFrom_of_none
      simp [instructionAt?, size]
  | @cons offset e es hRead hPlace hRest ih =>
      have hPositions :
          ((List.range e.instruction.width).map fun k =>
              c.position? (offset + k)) =
            List.replicate e.instruction.width
              (some e.position) := by
        rw [List.eq_replicate_iff]
        refine ⟨by simp, ?_⟩
        intro position hMem
        rcases List.mem_map.mp hMem with ⟨k, hRange, hAt⟩
        rw [← hAt]
        exact hPlace k (List.mem_range.mp hRange)
      rw [readFrom_of_some hRead, hPositions, ih]
      rfl

end Chunk

end Abacus

------------------------------------------------------------
-- Building
------------------------------------------------------------

namespace Abacus

namespace Chunk

variable {c : Chunk}
variable {es : List Emission}

/- An opcode without an operand is one more instruction. -/
theorem spells_emit
    (hPlaced : c.Placed)
    {op : Opcode}
    {i : Instruction}
    (hInstruction : op.instruction? = some i)
    (position : Position) :
    (c.emit op position).Spells c.size [⟨i, position⟩] := by
  have hSize : c.positions.size = c.code.size := hPlaced
  have hOpcode : i.opcode = op ∧ i.width = 1 := by
    cases op <;> cases hInstruction <;> exact ⟨rfl, rfl⟩
  rcases hOpcode with ⟨hOpcode, hWidth⟩
  have hEnd :
      (c.emit op position).size = c.size + i.width := by
    rw [hWidth]
    exact Array.size_push _
  apply Spells.cons
  · rw [instructionAt?_eq_some_iff]
    refine ⟨?_, ?_⟩
    · rw [hOpcode]
      exact Array.getElem?_push_size
    · intro value hPush
      subst hPush
      cases hOpcode
      cases hInstruction
  · intro k hLt
    rw [hWidth] at hLt
    have hZero : k = 0 := by omega
    rw [hZero, position?, Nat.add_zero, size, ← hSize]
    exact Array.getElem?_push_size
  · rw [← hEnd]
    exact Spells.nil

/- What a constant instruction adds, if it is taken. -/
theorem emitConstant_ok
    {d : Chunk}
    {value : Number}
    {position : Position}
    {index : UInt8}
    (hEmit : c.emitConstant value position = .ok (d, index)) :
    d =
      ((c.pooled value).emit .constant position).write index
        position := by
  unfold emitConstant at hEmit
  cases hAdd : c.addConstant value with
  | error full => simp [hAdd] at hEmit
  | ok added =>
      simp only [hAdd, Except.ok.injEq, Prod.mk.injEq]
        at hEmit
      rw [← hEmit.1, ← hEmit.2, (addConstant_ok hAdd).1]

/- The two entries that were added last. -/
theorem getElem?_push_push
    {α : Type}
    (xs : Array α)
    (first second : α) :
    ((xs.push first).push second)[xs.size]? = some first ∧
      ((xs.push first).push second)[xs.size + 1]? =
        some second := by
  constructor
  · have hBelow : xs.size ≠ (xs.push first).size := by
      rw [Array.size_push]
      omega
    rw [Array.getElem?_push, if_neg hBelow]
    exact Array.getElem?_push_size
  · rw [← Array.size_push first]
    exact Array.getElem?_push_size

/- So is a constant that was taken. -/
theorem spells_emitConstant
    (hPlaced : c.Placed)
    {d : Chunk}
    {value : Number}
    {position : Position}
    {index : UInt8}
    (hEmit : c.emitConstant value position = .ok (d, index)) :
    d.Spells c.size [⟨.push value, position⟩] := by
  have hSize : c.positions.size = c.code.size := hPlaced
  have hApply :
      c.apply (.push value position) =
        ⟨d, .ok (some index), []⟩ := by
    rw [apply, hEmit]
    rfl
  have hReply :
      (c.apply (.push value position)).reply =
        .ok (some index) := by
    rw [hApply]
  have hConstant : d.constant? index.toNat = some value := by
    have hTaken := (constant?_of_taken rfl hReply).2 []
    rw [hApply] at hTaken
    exact hTaken
  have hChunk := emitConstant_ok hEmit
  have hCode :=
    getElem?_push_push c.code Opcode.constant.toByte index
  have hPositions :=
    getElem?_push_push c.positions position position
  rw [hSize] at hPositions
  have hEnd : d.size = c.size + 2 := by
    simp [hChunk, size, emit, write, pooled]
  apply Spells.cons
  · rw [instructionAt?_eq_some_iff, hChunk]
    refine ⟨hCode.1, ?_⟩
    intro other hPush
    cases hPush
    refine ⟨index, hCode.2, ?_⟩
    rw [← hChunk]
    exact hConstant
  · intro k hLt
    have hBoth : k = 0 ∨ k = 1 := by
      change k < 2 at hLt
      omega
    rw [hChunk]
    rcases hBoth with hZero | hOne
    · rw [hZero]
      exact hPositions.1
    · rw [hOne]
      exact hPositions.2
  · have hNil : d.Spells d.size [] := Spells.nil
    rw [hEnd] at hNil
    exact hNil

/- An edit adds the instruction that it emits, if any. -/
theorem Spells.apply
    (hSpells : c.Spells 0 es)
    (hPlaced : c.Placed)
    {edit : Edit}
    (hSafe : edit.IsSafe)
    {index : Option UInt8}
    (hReply : (c.apply edit).reply = .ok index) :
    (c.apply edit).chunk.Spells 0
      (es ++ edit.emission?.toList) := by
  have hGrows : c.GrowsTo (c.apply edit).chunk :=
    growsTo_applyAll c [edit]
  apply hSpells.extend hGrows
  cases edit with
  | byte byte position => exact hSafe.elim
  | op op position =>
      rcases Opcode.exists_instruction hSafe with
        ⟨i, hInstruction⟩
      rw [Edit.emission?, hInstruction]
      exact spells_emit hPlaced hInstruction position
  | constant value =>
      have hSame :
          (c.apply (.constant value)).chunk.size = c.size :=
        congrArg Array.size (apply_constant_code c value).1
      rw [← hSame]
      exact Spells.nil
  | push value position =>
      cases hEmit : c.emitConstant value position with
      | error full =>
          rw [Chunk.apply, hEmit] at hReply
          cases hReply
      | ok added =>
          have hChunk :
              (c.apply (.push value position)).chunk =
                added.1 := by
            rw [Chunk.apply, hEmit]
            rfl
          rw [hChunk]
          exact spells_emitConstant hPlaced hEmit

/- So do edits of which none is refused. -/
theorem Spells.assembleFrom
    {d : Chunk}
    {edits : List Edit}
    (hSpells : c.Spells 0 es)
    (hPlaced : c.Placed)
    (hSafe : ∀ edit ∈ edits, edit.IsSafe)
    (hBuilt : (c.assembleFrom edits).result = .ok d) :
    d.Spells 0 (es ++ edits.filterMap Edit.emission?) := by
  induction edits generalizing c es with
  | nil =>
      cases hBuilt
      simpa using hSpells
  | cons edit edits ih =>
      have hEdit := hSafe edit List.mem_cons_self
      have hEdits :
          ∀ other ∈ edits, other.IsSafe := by
        intro other hOther
        exact hSafe other (List.mem_cons_of_mem _ hOther)
      cases hReply : (c.apply edit).reply with
      | error full =>
          simp [Chunk.assembleFrom, hReply] at hBuilt
      | ok index =>
          have hRest :
              ((c.apply edit).chunk.assembleFrom
                edits).result = .ok d := by
            simpa [Chunk.assembleFrom, hReply] using hBuilt
          have hAll :=
            ih (hSpells.apply hPlaced hEdit hReply)
              (hPlaced.applyAll [edit]) hEdits hRest
          rw [List.append_assoc] at hAll
          cases hEmits : edit.emission? with
          | none =>
              rw [List.filterMap_cons_none hEmits]
              simpa [hEmits] using hAll
          | some e =>
              rw [List.filterMap_cons_some hEmits]
              simpa [hEmits] using hAll

end Chunk

end Abacus

------------------------------------------------------------
-- Listings
------------------------------------------------------------

namespace Abacus

namespace Emission

/-
  The line of a listing for an instruction at an offset,
  below a row of some line.
-/
def line
    (previous : Option Nat)
    (offset : Nat)
    (e : Emission) : String :=
  let sourceLine :=
    if previous = some e.position.line then
      "|"
    else
      Row.cell e.position.line
  Row.cell offset ++ "\t" ++ sourceLine ++ "\t" ++
    Row.cell e.position.col ++ "\t" ++
    e.instruction.shown ++ "\n"

/- The lines of a listing from an offset on. -/
def linesFrom :
    Option Nat → Nat → List Emission → List String
| _, _, [] => []
| previous, offset, e :: es =>
    e.line previous offset ::
      linesFrom (some e.position.line)
        (offset + e.instruction.width) es

end Emission

namespace Chunk

variable {c : Chunk}
variable {offset : Nat}
variable {es : List Emission}

theorem fetch_of_instructionAt?
    {i : Instruction}
    (hRead : c.instructionAt? offset = some i) :
    c.fetch offset = (.ok i, offset + i.width) := by
  rcases instructionAt?_eq_some_iff.mp hRead with
    ⟨hByte, hOperand⟩
  cases i with
  | push value =>
      rcases hOperand value rfl with ⟨index, hIndex, hValue⟩
      simp [fetch, hByte, Instruction.opcode, fetchConstant,
        hIndex, hValue, Instruction.width, Opcode.width]
  | _ =>
      simp [fetch, hByte, Instruction.opcode,
        Instruction.width, Opcode.width]

theorem line?_of_position?
    {position : Position}
    (hPosition : c.position? offset = some position) :
    c.line? offset = some position.line := by
  rw [line?, hPosition]
  rfl

/- The line and the column of a byte that has a position. -/
theorem text_placeAfter
    {position : Position}
    (hPosition : c.position? offset = some position)
    (previous : Option Nat) :
    (c.placeAfter previous offset).text =
      (if previous = some position.line then
          "|"
        else
          Row.cell position.line) ++
        "\t" ++ Row.cell position.col ++ "\t" := by
  unfold placeAfter
  rw [hPosition]
  dsimp only
  split <;> rfl

/- The rows of code are those of what it spells out. -/
theorem Spells.text_rowsFrom
    (hSpells : c.Spells offset es)
    (previous : Option Nat) :
    (c.rowsFrom previous offset).map Row.text =
      Emission.linesFrom previous offset es := by
  induction hSpells generalizing previous with
  | nil =>
      rw [rowsFrom_of_le (Nat.le_refl _)]
      rfl
  | @cons offset e es hRead hPlace hRest ih =>
      have hLt := lt_size_of_instructionAt? hRead
      have hFetch := fetch_of_instructionAt? hRead
      have hPosition : c.position? offset = some e.position :=
        hPlace 0 e.instruction.width_pos
      have hLine := line?_of_position? hPosition
      rcases rowAfter_of_fetch_ok hFetch previous with
        ⟨hRow, hNext⟩
      have hText :
          (c.rowAfter previous offset).text =
            e.line previous offset := by
        rw [hRow, Row.text, Instruction.text_body,
          text_placeAfter hPosition]
        simp only [Emission.line, String.append_assoc]
      rw [rowsFrom_of_lt hLt, List.map_cons, hText, hLine,
        ← hNext, ih]
      rfl

end Chunk

namespace Row

/- What rows say about bytes that cannot be read. -/
def complaints : List String :=
  ["Unknown opcode", "<invalid constant",
    "<missing operand>"]

end Row

namespace Instruction

theorem not_mem_shown
    (i : Instruction) :
    ' ' ∉ i.shown.toList := by
  cases i with
  | push value =>
      have hText :=
        Number.not_mem_text (c := ' ') (by decide) value
      simp [shown, Opcode.mnemonic, hText]
  | binary operator => cases operator <;> decide
  | _ => decide

end Instruction

namespace Emission

/- The line of an instruction is free of spaces. -/
theorem not_mem_line
    (previous : Option Nat)
    (offset : Nat)
    (e : Emission) :
    ' ' ∉ (e.line previous offset).toList := by
  have hCell : ∀ n, ' ' ∉ (Row.cell n).toList :=
    Text.not_mem_padded (by decide) 4
  have hShown := e.instruction.not_mem_shown
  unfold line
  split <;> simp [hCell, hShown]

theorem length_linesFrom
    (previous : Option Nat)
    (offset : Nat)
    (es : List Emission) :
    (linesFrom previous offset es).length = es.length := by
  induction es generalizing previous offset with
  | nil => rfl
  | cons e es ih => simp [linesFrom, ih]

theorem not_mem_of_mem_linesFrom
    {previous : Option Nat}
    {offset : Nat}
    {es : List Emission}
    {line : String}
    (hLine : line ∈ linesFrom previous offset es) :
    ' ' ∉ line.toList := by
  induction es generalizing previous offset with
  | nil => cases hLine
  | cons e es ih =>
      rcases List.mem_cons.mp hLine with hHere | hThere
      · rw [hHere]
        exact not_mem_line previous offset e
      · exact ih hThere

end Emission

namespace Chunk

/-
  A chunk that is built without a refusal, by constants and
  whole instructions, is read back as just these
  instructions, up to the end of its code. The listing has a
  line for each of them, and complains about none.
-/
theorem readFrom_assembled
    {c : Chunk}
    {edits : List Edit}
    (hSafe : ∀ edit ∈ edits, edit.IsSafe)
    (hBuilt : (empty.assembleFrom edits).result = .ok c)
    (name : String) :
    c.readFrom 0 =
        ((edits.filterMap Edit.emission?).map
            Emission.reading,
          c.size) ∧
      c.rows.map Row.text =
        Emission.linesFrom none 0
          (edits.filterMap Edit.emission?) ∧
      c.listing name =
        String.join
          (heading name ++
            Emission.linesFrom none 0
              (edits.filterMap Edit.emission?)) ∧
      c.rows.length =
        (edits.filterMap Edit.emission?).length ∧
      ∀ row ∈ c.rows,
        ∀ complaint ∈ Row.complaints,
          ¬complaint.toList <:+: row.text.toList := by
  have hPlaced : empty.Placed := rfl
  have hEmpty : empty.Spells 0 [] := Spells.nil
  have hSpells :=
    hEmpty.assembleFrom hPlaced hSafe hBuilt
  rw [List.nil_append] at hSpells
  have hText :
      c.rows.map Row.text =
        Emission.linesFrom none 0
          (edits.filterMap Edit.emission?) :=
    hSpells.text_rowsFrom none
  refine ⟨hSpells.readFrom_eq, hText, ?_, ?_, ?_⟩
  · rw [listing, listingLines, hText]
  · have hLength := congrArg List.length hText
    rw [List.length_map, Emission.length_linesFrom]
      at hLength
    exact hLength
  · intro row hRow complaint hComplaint hInfix
    have hLine : row.text ∈ c.rows.map Row.text :=
      List.mem_map_of_mem hRow
    rw [hText] at hLine
    have hSpaces :
        ∀ complaint ∈ Row.complaints,
          ' ' ∈ complaint.toList := by
      decide
    apply Emission.not_mem_of_mem_linesFrom hLine
    exact hInfix.mem (hSpaces complaint hComplaint)

/-
  The second instruction names the entry behind a constant
  that was added in between. Its operand has the byte of
  another opcode.
-/
theorem readFrom_assembled_operand :
    ∃ c : Chunk,
      (empty.assembleFrom
          [.push 1.5 ⟨1, 2⟩, .constant 7, .push 4 ⟨1, 3⟩,
            .op (.binary .add) ⟨2, 1⟩]).result =
          .ok c ∧
        c.code = #[0, 0, 0, 2, 2] ∧
        c.readFrom 0 =
          ([⟨.push 1.5, [some ⟨1, 2⟩, some ⟨1, 2⟩]⟩,
              ⟨.push 4, [some ⟨1, 3⟩, some ⟨1, 3⟩]⟩,
              ⟨.binary .add, [some ⟨2, 1⟩]⟩],
            5) ∧
        c.rows.map Row.text =
          ["0000\t0001\t0002\tOP_CONSTANT\t1.5\n",
            "0002\t|\t0003\tOP_CONSTANT\t4\n",
            "0004\t0002\t0001\tOP_ADD\n"] := by
  have hSafe :
      ∀ edit ∈
          ([.push 1.5 ⟨1, 2⟩, .constant 7, .push 4 ⟨1, 3⟩,
            .op (.binary .add) ⟨2, 1⟩] : List Edit),
        edit.IsSafe := by
    decide
  refine ⟨_, rfl, rfl, ?_, ?_⟩
  · exact (readFrom_assembled hSafe rfl "").1
  · rw [(readFrom_assembled hSafe rfl "").2.1]
    decide +kernel

end Chunk

end Abacus
