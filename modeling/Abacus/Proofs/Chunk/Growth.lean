import Abacus.Chunk.Edit

/-
  Chunks only grow.

  Every edit is made of two operations, writing a byte and
  adding a constant. What both of them keep is kept by any
  sequence of edits, refused ones included: nothing that a
  chunk has is ever changed, and every byte of it has a
  source position.

  Main declarations:
    * `Chunk.applyAll_induction`
    * `Chunk.GrowsTo` and `Chunk.growsTo_applyAll`
    * `Chunk.Reachable`
    * `Chunk.Placed` and `Chunk.Reachable.placed`
-/

------------------------------------------------------------
-- Edits
------------------------------------------------------------

namespace Abacus

namespace Chunk

/- The chunk with one more constant in its pool. -/
def pooled
    (c : Chunk)
    (value : Number) : Chunk :=
  { c with constants := c.constants.push value }

/- A constant that was added is one more in the pool. -/
theorem addConstant_ok
    {c c' : Chunk}
    {value : Number}
    {index : UInt8}
    (hAdd : c.addConstant value = .ok (c', index)) :
    c' = c.pooled value ∧
      c.constants.size < poolCapacity := by
  unfold addConstant at hAdd
  split at hAdd
  · rename_i hRoom
    cases hAdd
    exact ⟨rfl, hRoom⟩
  · cases hAdd

/- What both operations keep, every edit keeps. -/
theorem apply_induction
    {motive : Chunk → Prop}
    (write :
      ∀ c byte position,
        motive c → motive (c.write byte position))
    (pool :
      ∀ c value,
        c.constants.size < poolCapacity →
          motive c → motive (c.pooled value))
    {c : Chunk}
    (edit : Edit)
    (hStart : motive c) :
    motive (c.apply edit).chunk := by
  cases edit with
  | byte byte position => exact write c byte position hStart
  | op op position => exact write c _ position hStart
  | constant value =>
      cases hAdd : c.addConstant value with
      | error full =>
          simpa [apply, settle, hAdd] using hStart
      | ok added =>
          rcases addConstant_ok hAdd with ⟨hChunk, hRoom⟩
          simpa [apply, settle, hAdd, hChunk] using
            pool c value hRoom hStart
  | push value position =>
      cases hAdd : c.addConstant value with
      | error full =>
          simpa [apply, settle, emitConstant, hAdd] using
            hStart
      | ok added =>
          rcases addConstant_ok hAdd with ⟨hChunk, hRoom⟩
          have hPooled := pool c value hRoom hStart
          have hOpcode :=
            write _ Opcode.constant.toByte position hPooled
          simpa [apply, settle, emitConstant, emit, hAdd,
            hChunk] using write _ added.2 position hOpcode

/- So does every sequence of edits. -/
theorem applyAll_induction
    {motive : Chunk → Prop}
    (write :
      ∀ c byte position,
        motive c → motive (c.write byte position))
    (pool :
      ∀ c value,
        c.constants.size < poolCapacity →
          motive c → motive (c.pooled value))
    {c : Chunk}
    (edits : List Edit)
    (hStart : motive c) :
    motive (c.applyAll edits) := by
  induction edits generalizing c with
  | nil => exact hStart
  | cons edit edits ih =>
      have hFirst := apply_induction write pool edit hStart
      exact ih hFirst

end Chunk

end Abacus

------------------------------------------------------------
-- Growth
------------------------------------------------------------

namespace Abacus

namespace Chunk

/- One chunk is another one with more behind its parts. -/
structure GrowsTo
    (c d : Chunk) : Prop where
  code : c.code.toList <+: d.code.toList
  positions : c.positions.toList <+: d.positions.toList
  constants : c.constants.toList <+: d.constants.toList

namespace GrowsTo

variable {c d : Chunk}

theorem refl
    (c : Chunk) :
    c.GrowsTo c where
  code := List.prefix_refl _
  positions := List.prefix_refl _
  constants := List.prefix_refl _

theorem write
    (hGrows : c.GrowsTo d)
    (byte : UInt8)
    (position : Position) :
    c.GrowsTo (d.write byte position) where
  code := by
    simpa [Chunk.write] using
      hGrows.code.trans (List.prefix_append _ [byte])
  positions := by
    simpa [Chunk.write] using
      hGrows.positions.trans
        (List.prefix_append _ [position])
  constants := hGrows.constants

theorem pooled
    (hGrows : c.GrowsTo d)
    (value : Number) :
    c.GrowsTo (d.pooled value) where
  code := hGrows.code
  positions := hGrows.positions
  constants := by
    simpa [Chunk.pooled] using
      hGrows.constants.trans (List.prefix_append _ [value])

/- An entry of an array is also one of a longer array. -/
theorem getElem?_of_prefix
    {α : Type}
    {xs ys : Array α}
    (hPrefix : xs.toList <+: ys.toList)
    {i : Nat}
    {x : α}
    (hEntry : xs[i]? = some x) :
    ys[i]? = some x := by
  rcases Array.getElem?_eq_some_iff.mp hEntry with
    ⟨hLt, hEq⟩
  have hSame :=
    List.prefix_iff_getElem?.mp hPrefix i (by simpa using hLt)
  simpa [hEq] using hSame

theorem code_eq_some
    (hGrows : c.GrowsTo d)
    {offset : Nat}
    {byte : UInt8}
    (hByte : c.code[offset]? = some byte) :
    d.code[offset]? = some byte :=
  getElem?_of_prefix hGrows.code hByte

theorem constant?_eq_some
    (hGrows : c.GrowsTo d)
    {index : Nat}
    {value : Number}
    (hValue : c.constant? index = some value) :
    d.constant? index = some value :=
  getElem?_of_prefix hGrows.constants hValue

theorem position?_eq_some
    (hGrows : c.GrowsTo d)
    {offset : Nat}
    {position : Position}
    (hPosition : c.position? offset = some position) :
    d.position? offset = some position :=
  getElem?_of_prefix hGrows.positions hPosition

theorem size_le
    (hGrows : c.GrowsTo d) :
    c.size ≤ d.size := by
  simpa [size] using hGrows.code.length_le

end GrowsTo

/- Edits only add to a chunk. -/
theorem growsTo_applyAll
    (c : Chunk)
    (edits : List Edit) :
    c.GrowsTo (c.applyAll edits) := by
  apply applyAll_induction _ _ edits (GrowsTo.refl c)
  · intro d byte position hGrows
    exact hGrows.write byte position
  · intro d value _ hGrows
    exact hGrows.pooled value

end Chunk

end Abacus

------------------------------------------------------------
-- Positions
------------------------------------------------------------

namespace Abacus

namespace Chunk

/- There is one position for each byte of the code. -/
def Placed
    (c : Chunk) : Prop :=
  c.positions.size = c.size

/- A chunk that some edits build from nothing. -/
def Reachable
    (c : Chunk) : Prop :=
  ∃ edits, c = ofEdits edits

/- Edits keep a chunk placed. -/
theorem Placed.applyAll
    {c : Chunk}
    (hPlaced : c.Placed)
    (edits : List Edit) :
    (c.applyAll edits).Placed := by
  apply applyAll_induction _ _ edits hPlaced
  · intro c byte position hPlaced
    simpa [Placed, size, write] using hPlaced
  · intro c value _ hPlaced
    exact hPlaced

/- Whatever edits build is placed. -/
theorem Reachable.placed
    {c : Chunk}
    (hReachable : c.Reachable) :
    c.Placed := by
  rcases hReachable with ⟨edits, rfl⟩
  have hEmpty : empty.Placed := rfl
  exact hEmpty.applyAll edits

namespace Placed

variable {c d : Chunk}
variable {offset : Nat}

/- There is a position exactly within the code. -/
theorem position?_eq_none_iff
    (hPlaced : c.Placed) :
    c.position? offset = none ↔ c.size ≤ offset := by
  unfold Placed at hPlaced
  simp [position?, hPlaced]

/- The positions of a chunk are kept as it grows. -/
theorem position?_eq
    (hPlaced : c.Placed)
    (hGrows : c.GrowsTo d)
    (hWithin : offset < c.size) :
    d.position? offset = c.position? offset := by
  cases hPosition : c.position? offset with
  | none =>
      have hEnd := hPlaced.position?_eq_none_iff.mp hPosition
      omega
  | some position => exact hGrows.position?_eq_some hPosition

end Placed

end Chunk

end Abacus
