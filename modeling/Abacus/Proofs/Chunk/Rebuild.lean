import Abacus.Proofs.Chunk.AppendOnly

/-
  A chunk is determined by its parts.

  Every edit adds some constants and some bytes, and the
  reply to it tells which: a refused one adds nothing. All
  that is left of a history is the list of constants that
  were taken and the list of bytes that were written, each
  in order. How the two were interleaved, which calls wrote
  the bytes, and what was refused in between cannot be told
  from the chunk. So a chunk is put together again from its
  parts, all constants first, and its pool is never too
  large for that.

  Main declarations:
    * `Edit.taken` and `Edit.written`
    * `Chunk.extended` and `Chunk.apply_eq_extended`
    * `Chunk.applyAll_eq_extended`
    * `Chunk.assemble_of_room`
    * `Chunk.ofEdits_determined`
-/

------------------------------------------------------------
-- What Edits Add
------------------------------------------------------------

namespace Abacus

namespace Edit

/- The constant that an edit added, by the reply to it. -/
def taken
    (edit : Edit) :
    Except PoolFull (Option UInt8) → List Number
| .ok (some _) => edit.value?.toList
| .ok none => []
| .error _ => []

/- The bytes that an edit wrote, by the reply to it. -/
def written :
    Edit →
      Except PoolFull (Option UInt8) →
        List (UInt8 × Position)
| .byte code position, _ => [(code, position)]
| .op opcode position, _ => [(opcode.toByte, position)]
| .constant _, _ => []
| .push _ position, .ok (some index) =>
    [(Opcode.constant.toByte, position), (index, position)]
| .push _ _, .ok none => []
| .push _ _, .error _ => []

end Edit

namespace Chunk

/- The constants that edits add to a chunk, in order. -/
def taken :
    Chunk → List Edit → List Number
| _, [] => []
| c, edit :: edits =>
    edit.taken (c.apply edit).reply ++
      taken (c.apply edit).chunk edits

/- The bytes that edits write to a chunk, in order. -/
def written :
    Chunk → List Edit → List (UInt8 × Position)
| _, [] => []
| c, edit :: edits =>
    edit.written (c.apply edit).reply ++
      written (c.apply edit).chunk edits

/- The chunk with constants and bytes behind its own. -/
def extended
    (c : Chunk)
    (values : List Number)
    (bytes : List (UInt8 × Position)) : Chunk where
  code := c.code ++ (bytes.map Prod.fst).toArray
  positions := c.positions ++ (bytes.map Prod.snd).toArray
  constants := c.constants ++ values.toArray

@[simp] theorem extended_nil
    (c : Chunk) :
    c.extended [] [] = c := by
  simp [extended]

@[simp] theorem extended_extended
    (c : Chunk)
    (values more : List Number)
    (bytes rest : List (UInt8 × Position)) :
    (c.extended values bytes).extended more rest =
      c.extended (values ++ more) (bytes ++ rest) := by
  simp [extended]

theorem write_eq_extended
    (c : Chunk)
    (byte : UInt8)
    (position : Position) :
    c.write byte position =
      c.extended [] [(byte, position)] := by
  simp [write, extended]

theorem pooled_eq_extended
    (c : Chunk)
    (value : Number) :
    c.pooled value = c.extended [value] [] := by
  simp [pooled, extended]

/- What an edit does to a chunk, with and without room. -/
theorem apply_eq_extended
    (c : Chunk)
    (edit : Edit) :
    (c.apply edit).chunk =
      c.extended
        (edit.taken (c.apply edit).reply)
        (edit.written (c.apply edit).reply) := by
  cases edit with
  | byte byte position =>
      exact c.write_eq_extended byte position
  | op op position =>
      exact c.write_eq_extended op.toByte position
  | constant value =>
      cases hAdd : c.addConstant value with
      | error full =>
          rw [apply, hAdd]
          exact c.extended_nil.symm
      | ok added =>
          rw [apply, hAdd, settle, (addConstant_ok hAdd).1]
          exact c.pooled_eq_extended value
  | push value position =>
      cases hAdd : c.addConstant value with
      | error full =>
          rw [apply, emitConstant, hAdd]
          exact c.extended_nil.symm
      | ok added =>
          have hPooled := (addConstant_ok hAdd).1
          simp [apply, emitConstant, hAdd, hPooled, settle,
            emit, write_eq_extended, pooled_eq_extended,
            Edit.taken, Edit.written, Edit.value?]

/-
  A history adds to a chunk what its edits add one after the
  other.
-/
theorem applyAll_eq_extended
    (c : Chunk)
    (edits : List Edit) :
    c.applyAll edits =
      c.extended (c.taken edits) (c.written edits) := by
  induction edits generalizing c with
  | nil => exact c.extended_nil.symm
  | cons edit edits ih =>
      have hRest := ih (c.apply edit).chunk
      rw [taken, written, ← extended_extended,
        ← apply_eq_extended]
      exact hRest

end Chunk

end Abacus

------------------------------------------------------------
-- Putting Chunks Together
------------------------------------------------------------

namespace Abacus

namespace Chunk

/- Constants for which there is room are all taken. -/
theorem assembleFrom_constants
    (c : Chunk)
    (values : List Number)
    (edits : List Edit)
    (hRoom :
      c.constants.size + values.length ≤ poolCapacity) :
    c.assembleFrom (values.map Edit.constant ++ edits) =
      (c.extended values []).assembleFrom edits := by
  induction values generalizing c with
  | nil => simp
  | cons value values ih =>
      rw [List.length_cons] at hRoom
      have hAdd :
          c.addConstant value =
            .ok
              (c.pooled value,
                UInt8.ofNat c.constants.size) :=
        if_pos (by omega)
      have hRest :=
        ih (c.pooled value)
          (by simp only [pooled, Array.size_push]; omega)
      rw [pooled_eq_extended, extended_extended] at hRest
      simpa [assembleFrom, apply, settle, hAdd,
        pooled_eq_extended] using hRest

/- Bytes are written in any case. -/
theorem assembleFrom_bytes
    (c : Chunk)
    (bytes : List (UInt8 × Position)) :
    c.assembleFrom
        (bytes.map fun byte => Edit.byte byte.1 byte.2) =
      ⟨.ok (c.extended [] bytes), []⟩ := by
  induction bytes generalizing c with
  | nil => simp [assembleFrom]
  | cons byte bytes ih =>
      have hRest := ih (c.write byte.1 byte.2)
      rw [write_eq_extended, extended_extended] at hRest
      simpa [assembleFrom, apply, write_eq_extended] using
        hRest

/- A chunk is put together if the pool is not too large. -/
theorem assemble_of_room
    {values : List Number}
    (hRoom : values.length ≤ poolCapacity)
    (bytes : List (UInt8 × Position)) :
    assemble values bytes =
      ⟨.ok (empty.extended values bytes), []⟩ := by
  have hEmpty :
      empty.constants.size + values.length ≤
        poolCapacity := by
    simpa [empty] using hRoom
  have hBytes :=
    assembleFrom_bytes (empty.extended values []) bytes
  rw [extended_extended, List.append_nil,
    List.nil_append] at hBytes
  unfold assemble
  rw [assembleFrom_constants _ _ _ hEmpty]
  exact hBytes

theorem parts_extended_empty
    (values : List Number)
    (bytes : List (UInt8 × Position)) :
    (empty.extended values bytes).constants.toList = values ∧
      (empty.extended values bytes).code.toList.zip
          (empty.extended values bytes).positions.toList =
        bytes := by
  have hBytes :
      bytes =
        (bytes.map Prod.fst).zip (bytes.map Prod.snd) :=
    List.zip_of_prod rfl rfl
  constructor
  · simp [extended, empty]
  · simpa [extended, empty] using hBytes.symm

/- Its parts are all that there is to a chunk. -/
theorem extended_empty_inj
    {values others : List Number}
    {bytes rest : List (UInt8 × Position)} :
    empty.extended values bytes =
        empty.extended others rest ↔
      values = others ∧ bytes = rest := by
  constructor
  · intro hSame
    rcases parts_extended_empty values bytes with
      ⟨hValues, hBytes⟩
    rcases parts_extended_empty others rest with
      ⟨hOthers, hRest⟩
    rw [hSame] at hValues hBytes
    exact ⟨hValues.symm.trans hOthers,
      hBytes.symm.trans hRest⟩
  · rintro ⟨hValues, hBytes⟩
    rw [hValues, hBytes]

/-
  Whatever history a chunk has, it is put together again
  from its constants and its bytes, and none of them is
  refused. Its parts are the constants that were taken and
  the bytes that were written. So two histories build the
  same chunk exactly if they agree in these, constants being
  compared by their bits: it matters neither in which order
  the two kinds came nor what was refused in between.
-/
theorem ofEdits_determined
    (edits : List Edit) :
    assemble (ofEdits edits).constants.toList
          ((ofEdits edits).code.toList.zip
            (ofEdits edits).positions.toList) =
        ⟨.ok (ofEdits edits), []⟩ ∧
      (ofEdits edits).constants.toList =
        empty.taken edits ∧
      (ofEdits edits).code.toList.zip
          (ofEdits edits).positions.toList =
        empty.written edits ∧
      ∀ others,
        ofEdits edits = ofEdits others ↔
          (empty.taken edits).map Number.toBits =
              (empty.taken others).map Number.toBits ∧
            empty.written edits = empty.written others := by
  have hBuilt := empty.applyAll_eq_extended
  have hParts :=
    parts_extended_empty (empty.taken edits)
      (empty.written edits)
  rw [← hBuilt] at hParts
  refine ⟨?_, hParts.1, hParts.2, ?_⟩
  · have hRoom := size_constants_le edits
    rw [← Array.length_toList] at hRoom
    rw [assemble_of_room hRoom, ofEdits, hParts.1, hParts.2,
      ← hBuilt]
  · intro others
    rw [ofEdits, ofEdits, hBuilt, hBuilt, extended_empty_inj,
      List.map_inj_right]
    intro x y hBits
    exact Number.ext hBits

/- Whole instructions, and single bytes behind the pool. -/
example :
    ofEdits
        [.push 1.5 ⟨1, 1⟩, .op .negate ⟨1, 2⟩, .constant 4,
          .byte 9 ⟨2, 1⟩] =
      ofEdits
        [.constant 1.5, .constant 4, .byte 0 ⟨1, 1⟩,
          .byte 0 ⟨1, 1⟩, .byte 1 ⟨1, 2⟩, .byte 9 ⟨2, 1⟩] := by
  decide +kernel

/- A NaN is told from a NaN with another payload or sign. -/
example :
    ofEdits [.constant (.ofBits 0x7FF8000000000000)] ≠
        ofEdits [.constant (.ofBits 0x7FF8000000000001)] ∧
      ofEdits [.constant (.ofBits 0x7FF8000000000000)] ≠
        ofEdits
          [.constant (.ofBits 0xFFF8000000000000)] := by
  decide +kernel

end Chunk

end Abacus
