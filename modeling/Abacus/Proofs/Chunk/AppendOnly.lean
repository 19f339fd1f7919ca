import Abacus.Proofs.Chunk.Growth

/-
  Chunks are append-only.

  A call on a chunk either adds something behind all that is
  there, or is refused. Only a full pool refuses anything,
  and then nothing is left half written, although a constant
  instruction takes three writes: one to the pool and two to
  the code. The index that a call gives is the size of the
  pool before it, and stands for the constant ever after.

  Main declarations:
    * `Edit.value?`
    * `Chunk.InPlace` and `Chunk.perform_eq_apply`
    * `Chunk.reply_apply`
    * `Chunk.size_constants_le`
    * `Chunk.ofEdits_append_only`
-/

------------------------------------------------------------
-- Constants Of Edits
------------------------------------------------------------

namespace Abacus

namespace Edit

/- The constant that an edit adds to the pool. -/
def value? :
    Edit → Option Number
| .byte _ _ => none
| .op _ _ => none
| .constant value => some value
| .push value _ => some value

end Edit

namespace Chunk

variable {c : Chunk}
variable {edit : Edit}
variable {value : Number}

/- An edit without a constant is done, and keeps the pool. -/
theorem apply_of_value?_none
    (hValue : edit.value? = none) :
    (c.apply edit).reply = .ok none ∧
      (c.apply edit).chunk.constants = c.constants := by
  cases edit with
  | byte byte position => exact ⟨rfl, rfl⟩
  | op op position => exact ⟨rfl, rfl⟩
  | constant value => cases hValue
  | push value position => cases hValue

/- A pool with room takes a constant, behind all others. -/
theorem apply_of_room
    (hValue : edit.value? = some value)
    (hRoom : c.constants.size < poolCapacity) :
    (c.apply edit).reply =
        .ok (some (UInt8.ofNat c.constants.size)) ∧
      (c.apply edit).chunk.constants =
        c.constants.push value := by
  have hAdd :
      c.addConstant value =
        .ok (c.pooled value, UInt8.ofNat c.constants.size) :=
    if_pos hRoom
  cases edit with
  | byte byte position => cases hValue
  | op op position => cases hValue
  | constant other =>
      cases hValue
      rw [apply, hAdd]
      exact ⟨rfl, rfl⟩
  | push other position =>
      cases hValue
      rw [apply, emitConstant, hAdd]
      exact ⟨rfl, rfl⟩

/- A full pool refuses a constant. -/
theorem apply_of_full
    (hValue : edit.value? = some value)
    (hFull : ¬c.constants.size < poolCapacity) :
    (c.apply edit).reply = .error ⟨poolCapacity⟩ ∧
      (c.apply edit).chunk = c := by
  have hAdd :
      c.addConstant value = .error ⟨poolCapacity⟩ :=
    if_neg hFull
  cases edit with
  | byte byte position => cases hValue
  | op op position => cases hValue
  | constant other =>
      cases hValue
      rw [apply, hAdd]
      exact ⟨rfl, rfl⟩
  | push other position =>
      cases hValue
      rw [apply, emitConstant, hAdd]
      exact ⟨rfl, rfl⟩

/- The reply depends on the constant and on the pool. -/
theorem reply_apply
    (c : Chunk)
    (edit : Edit) :
    (edit.value? = none ∧
        (c.apply edit).reply = .ok none) ∨
      (edit.value?.isSome ∧
        c.constants.size < poolCapacity ∧
        (c.apply edit).reply =
          .ok (some (UInt8.ofNat c.constants.size))) ∨
      (edit.value?.isSome ∧
        ¬c.constants.size < poolCapacity ∧
        (c.apply edit).reply = .error ⟨poolCapacity⟩) := by
  cases hValue : edit.value? with
  | none =>
      exact .inl ⟨rfl, (apply_of_value?_none hValue).1⟩
  | some value =>
      right
      by_cases hRoom : c.constants.size < poolCapacity
      · left
        exact ⟨rfl, hRoom, (apply_of_room hValue hRoom).1⟩
      · right
        exact ⟨rfl, hRoom, (apply_of_full hValue hRoom).1⟩

/- Only a constant is refused, and only by a full pool. -/
theorem refused_iff
    (c : Chunk)
    (edit : Edit) :
    (∃ full, (c.apply edit).reply = .error full) ↔
      edit.value?.isSome ∧
        ¬c.constants.size < poolCapacity := by
  rcases reply_apply c edit with
    ⟨hNone, hReply⟩ | ⟨hSome, hRoom, hReply⟩ |
      ⟨hSome, hFull, hReply⟩
  · simp [hNone, hReply]
  · simp [hRoom, hReply]
  · simp [hSome, hFull, hReply]

/- A constant is taken as long as the pool has room. -/
theorem taken_iff
    (c : Chunk)
    (edit : Edit) :
    (∃ index, (c.apply edit).reply = .ok (some index)) ↔
      edit.value?.isSome ∧
        c.constants.size < poolCapacity := by
  rcases reply_apply c edit with
    ⟨hNone, hReply⟩ | ⟨hSome, hRoom, hReply⟩ |
      ⟨hSome, hFull, hReply⟩
  · simp [hNone, hReply]
  · simp [hSome, hRoom, hReply]
  · simp [hFull, hReply]

end Chunk

end Abacus

------------------------------------------------------------
-- Calls In Place
------------------------------------------------------------

namespace Abacus

namespace Chunk

/-
  Calls that change a chunk in place. What a call did before
  it failed stays done.
-/
abbrev InPlace : Type → Type :=
  EStateM PoolFull Chunk

namespace InPlace

def write
    (byte : UInt8)
    (position : Position) : InPlace Unit :=
  modify fun c => c.write byte position

def addConstant
    (value : Number) : InPlace UInt8 := do
  let index := (← get).constants.size
  if index < poolCapacity then
    modify fun c => c.pooled value
    return UInt8.ofNat index
  else
    throw ⟨poolCapacity⟩

def emitConstant
    (value : Number)
    (position : Position) : InPlace UInt8 := do
  let index ← addConstant value
  write Opcode.constant.toByte position
  write index position
  return index

/- The call of an edit. -/
def call :
    Edit → InPlace (Option UInt8)
| .byte byte position => do
    write byte position
    return none
| .op op position => do
    write op.toByte position
    return none
| .constant value => do
    let index ← addConstant value
    return some index
| .push value position => do
    let index ← emitConstant value position
    return some index

/- The reply to a call, and the chunk that it leaves. -/
def perform
    (edit : Edit)
    (c : Chunk) :
    Except PoolFull (Option UInt8) × Chunk :=
  match (call edit).run c with
  | .ok reply c => (.ok reply, c)
  | .error full c => (.error full, c)

theorem addConstant_eq
    (value : Number)
    (c : Chunk) :
    addConstant value c =
      match c.addConstant value with
      | .ok (pooled, index) => .ok index pooled
      | .error full => .error full c := by
  change
    (if c.constants.size < poolCapacity then
      (_ : InPlace UInt8) else _) c = _
  unfold Chunk.addConstant
  split <;> rfl

end InPlace

/-
  A call in place leaves the chunk that the edit gives, also
  if it fails: the pool is asked before anything is written.
-/
theorem perform_eq_apply
    (edit : Edit)
    (c : Chunk) :
    InPlace.perform edit c =
      ((c.apply edit).reply, (c.apply edit).chunk) := by
  cases edit with
  | byte byte position => rfl
  | op op position => rfl
  | constant value =>
      simp only [InPlace.perform, InPlace.call, EStateM.run,
        bind, EStateM.bind, InPlace.addConstant_eq, apply]
      cases c.addConstant value <;> rfl
  | push value position =>
      simp only [InPlace.perform, InPlace.call,
        InPlace.emitConstant, EStateM.run, bind,
        EStateM.bind, InPlace.addConstant_eq, apply,
        emitConstant]
      cases c.addConstant value <;> rfl

end Chunk

end Abacus

------------------------------------------------------------
-- Histories
------------------------------------------------------------

namespace Abacus

namespace Chunk

/- A history that goes on after an edit. -/
theorem ofEdits_append_cons
    (before : List Edit)
    (edit : Edit)
    (after : List Edit) :
    ofEdits (before ++ edit :: after) =
      ((ofEdits before).apply edit).chunk.applyAll after := by
  simp [ofEdits, applyAll]

/- No history puts more into the pool than it can hold. -/
theorem size_constants_le
    (edits : List Edit) :
    (ofEdits edits).constants.size ≤ poolCapacity := by
  apply applyAll_induction
    (motive := fun c => c.constants.size ≤ poolCapacity)
    _ _ edits
  · exact Nat.zero_le _
  · intro c byte position hBound
    exact hBound
  · intro c value hRoom _
    simp only [pooled, Array.size_push]
    omega

/-
  A constant that was taken has the size of the pool before
  it as its index, and keeps it whatever is added later.
-/
theorem constant?_of_taken
    {c : Chunk}
    {edit : Edit}
    {value : Number}
    {index : UInt8}
    (hValue : edit.value? = some value)
    (hReply : (c.apply edit).reply = .ok (some index)) :
    index.toNat = c.constants.size ∧
      ∀ after,
        ((c.apply edit).chunk.applyAll after).constant?
            index.toNat =
          some value := by
  by_cases hRoom : c.constants.size < poolCapacity
  · rcases apply_of_room hValue hRoom with
      ⟨hTaken, hPool⟩
    rw [hTaken] at hReply
    cases hReply
    have hIndex :
        (UInt8.ofNat c.constants.size).toNat =
          c.constants.size :=
      UInt8.toNat_ofNat_of_lt hRoom
    refine ⟨hIndex, ?_⟩
    intro after
    apply (growsTo_applyAll _ after).constant?_eq_some
    rw [hIndex, constant?, hPool]
    exact Array.getElem?_push_size
  · rw [(apply_of_full hValue hRoom).1] at hReply
    cases hReply

/- Adding a constant alone leaves the code as it is. -/
theorem apply_constant_code
    (c : Chunk)
    (value : Number) :
    (c.apply (.constant value)).chunk.code = c.code ∧
      (c.apply (.constant value)).chunk.positions =
        c.positions := by
  cases hAdd : c.addConstant value with
  | error full =>
      rw [apply, hAdd]
      exact ⟨rfl, rfl⟩
  | ok added =>
      rw [apply, hAdd, settle, (addConstant_ok hAdd).1]
      exact ⟨rfl, rfl⟩

/-
  At every point of every history, each byte has a position
  and the pool is within its capacity. The next edit changes
  nothing that is there. A constant that it adds gets the
  size of the pool as its index and keeps it for ever; it is
  refused exactly by a full pool, which leaves the chunk as
  it was. Code and pool are written to separately.
-/
theorem ofEdits_append_only
    (before : List Edit)
    (edit : Edit) :
    (ofEdits before).code.size =
        (ofEdits before).positions.size ∧
      (ofEdits before).constants.size ≤ 256 ∧
      InPlace.perform edit (ofEdits before) =
        (((ofEdits before).apply edit).reply,
          ((ofEdits before).apply edit).chunk) ∧
      (ofEdits before).GrowsTo
        ((ofEdits before).apply edit).chunk ∧
      (∀ value index,
        edit.value? = some value →
        ((ofEdits before).apply edit).reply =
            .ok (some index) →
        index.toNat = (ofEdits before).constants.size ∧
          ∀ after,
            (ofEdits (before ++ edit :: after)).constant?
                index.toNat =
              some value) ∧
      ((∃ index,
          ((ofEdits before).apply edit).reply =
            .ok (some index)) ↔
        edit.value?.isSome ∧
          (ofEdits before).constants.size < 256) ∧
      ((∃ full,
          ((ofEdits before).apply edit).reply =
            .error full) ↔
        edit.value?.isSome ∧
          (ofEdits before).constants.size = 256) ∧
      (∀ full,
        ((ofEdits before).apply edit).reply =
            .error full →
        ((ofEdits before).apply edit).chunk =
          ofEdits before) ∧
      (edit.value? = none →
        ((ofEdits before).apply edit).chunk.constants =
          (ofEdits before).constants) ∧
      ∀ value,
        edit = .constant value →
        ((ofEdits before).apply edit).chunk.code =
            (ofEdits before).code ∧
          ((ofEdits before).apply edit).chunk.positions =
            (ofEdits before).positions := by
  have hPlaced : (ofEdits before).Placed :=
    Reachable.placed ⟨before, rfl⟩
  have hBound : (ofEdits before).constants.size ≤ 256 :=
    size_constants_le before
  refine ⟨hPlaced.symm, hBound, perform_eq_apply _ _,
    growsTo_applyAll _ [edit], ?_, taken_iff _ _, ?_, ?_,
    ?_, ?_⟩
  · intro value index hValue hReply
    rcases constant?_of_taken hValue hReply with
      ⟨hIndex, hKept⟩
    refine ⟨hIndex, ?_⟩
    intro after
    rw [ofEdits_append_cons]
    exact hKept after
  · have hFull :
        ¬(ofEdits before).constants.size < poolCapacity ↔
          (ofEdits before).constants.size = 256 := by
      unfold poolCapacity
      omega
    rw [refused_iff, hFull]
  · intro full hReply
    rcases (refused_iff _ _).mp ⟨full, hReply⟩ with
      ⟨hSome, hFull⟩
    rcases Option.isSome_iff_exists.mp hSome with
      ⟨value, hValue⟩
    exact (apply_of_full hValue hFull).2
  · intro hNone
    exact (apply_of_value?_none hNone).2
  · intro value hConstant
    rw [hConstant]
    exact apply_constant_code _ value

/-
  The last index is 255. One more constant is refused, and
  neither of the two bytes that go with it is written.
-/
theorem ofEdits_append_only_last :
    (∀ after,
      (ofEdits
            (List.replicate 255 (.constant 1) ++
              .push 2 ⟨1, 1⟩ :: after)).constant?
          (255 : UInt8).toNat =
        some 2) ∧
      ((ofEdits
            (List.replicate 256 (.constant 1))).apply
          (.push 2 ⟨1, 1⟩)).chunk =
        ofEdits (List.replicate 256 (.constant 1)) := by
  have hLast :=
    ofEdits_append_only (List.replicate 255 (.constant 1))
      (.push 2 ⟨1, 1⟩)
  have hFull :=
    ofEdits_append_only (List.replicate 256 (.constant 1))
      (.push 2 ⟨1, 1⟩)
  have hLastSize :
      (ofEdits
        (List.replicate 255 (.constant 1))).constants.size =
        255 := by
    decide +kernel
  have hFullSize :
      (ofEdits
        (List.replicate 256 (.constant 1))).constants.size =
        256 := by
    decide +kernel
  rcases hLast with ⟨_, _, _, _, hKept, hTaken, _⟩
  rcases hFull with ⟨_, _, _, _, _, _, hRefused, hSame, _⟩
  refine ⟨?_, ?_⟩
  · rcases hTaken.mpr ⟨rfl, by omega⟩ with ⟨index, hReply⟩
    rcases hKept 2 index rfl hReply with ⟨hIndex, hConstant⟩
    rw [hLastSize] at hIndex
    rw [hIndex] at hConstant
    exact hConstant
  · rcases hRefused.mpr ⟨rfl, hFullSize⟩ with
      ⟨full, hReply⟩
    exact hSame full hReply

end Chunk

end Abacus
