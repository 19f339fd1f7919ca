import Abacus.Chunk.Edit
import Abacus.Proofs.Expression.Basic
import Abacus.Proofs.Program.Refinement
import Abacus.Sink.Bytes

/-
  Running the code of an expression.

  On a stack with enough free slots the code of an
  expression puts its value on top and leaves all below as
  it was. On any other stack it overflows, at the first leaf
  that is reached with a full stack.

  Main declarations:
    * `Expr.exec_code`
    * `Expr.exec_code_overflow`
    * `Machine.interpret_postorder`
-/

------------------------------------------------------------
-- Enough Room
------------------------------------------------------------

namespace Abacus

namespace Expr

open Program

variable {c : Chunk}

/- Pushing a constant of the pool, if there is room. -/
theorem effect_constant
    {index : UInt8}
    {values : List Number}
    (hWithin : (leaf index).Within c.constants.size)
    (hRoom : values.length < Stack.capacity) :
    (Token.constant index).effect
        c.constants.toList values =
      .ok ((leaf index).eval c.constants :: values) := by
  have hIndex : index.toNat < c.constants.size := hWithin
  simp [Token.effect, eval, hIndex, hRoom]

/- Pushing a constant of the pool, if there is none. -/
theorem effect_constant_full
    {index : UInt8}
    {values : List Number}
    (hWithin : (leaf index).Within c.constants.size)
    (hFull : values.length = Stack.capacity) :
    (Token.constant index).effect
        c.constants.toList values =
      .error (some (.stackOverflow Stack.capacity)) := by
  have hIndex : index.toNat < c.constants.size := hWithin
  simp [Token.effect, hIndex, hFull]

/-
  With enough room, the code of an expression computes its
  value, whatever lies below and whatever code follows.
-/
theorem exec_code
    {e : Expr}
    (hWithin : e.Within c.constants.size)
    (offset steps : Nat)
    (values : List Number)
    (rest : List UInt8)
    (hRoom : values.length + e.need ≤ Stack.capacity) :
    (decode offset (e.code ++ rest)).exec c none
        steps values =
      (decode (offset + e.code.length) rest).exec c none
        (steps + e.size) (e.eval c.constants :: values) := by
  induction e generalizing offset steps values rest with
  | leaf index =>
      have hFree : values.length < Stack.capacity := hRoom
      rw [code, decode_token_append,
        exec_cons_of_ok rfl (effect_constant hWithin hFree)]
      rfl
  | neg arg ih =>
      rw [code, List.append_assoc,
        ih hWithin offset steps values _ hRoom,
        decode_token_append, exec_cons_of_ok rfl rfl,
        List.length_append]
      rfl
  | bin operator left right ihLeft ihRight =>
      simp only [need] at hRoom
      rw [code, List.append_assoc, List.append_assoc,
        ihLeft hWithin.1 offset steps values _ (by omega),
        ihRight hWithin.2 _ _ _ _
          (by simp only [List.length_cons]; omega),
        decode_token_append,
        exec_cons_of_ok rfl (effect_bin _ _ _ _ _),
        List.length_append, List.length_append]
      simp only [size, Token.width, Nat.add_assoc]

------------------------------------------------------------
-- Overflow
------------------------------------------------------------

/-
  Without enough room, the code of an expression fills the
  stack and stops at the first leaf that finds it full. Of a
  node with two arguments, the left one overflows, or it has
  room and the right one overflows on top of its value.
-/
theorem exec_code_overflow
    {e : Expr}
    (hWithin : e.Within c.constants.size)
    (offset steps : Nat)
    (values : List Number)
    (rest : List UInt8)
    (hBound : values.length ≤ Stack.capacity)
    (hNeed : Stack.capacity < values.length + e.need) :
    ∃ leaf ∈ e.overflow? offset values.length,
      ∃ final steps',
        final.length = Stack.capacity ∧
          (decode offset (e.code ++ rest)).exec c none
              steps values =
            ⟨final, steps',
              some
                ⟨.stackOverflow Stack.capacity, leaf.offset,
                  c.position? leaf.offset⟩⟩ := by
  induction e generalizing offset steps values rest with
  | leaf index =>
      have hFull : values.length = Stack.capacity := by
        simp only [need] at hNeed
        omega
      refine ⟨⟨offset, values.length⟩, ?_, values,
        steps + 1, hFull, ?_⟩
      · simp [overflow?, leavesFrom, hFull]
      · rw [code, decode_token_append,
          exec_cons_of_stop rfl
            (effect_constant_full hWithin hFull)]
        rfl
  | neg arg ih =>
      rw [code, List.append_assoc]
      exact ih hWithin offset steps values _ hBound hNeed
  | bin operator left right ihLeft ihRight =>
      simp only [need] at hNeed
      rw [code, List.append_assoc, List.append_assoc,
        overflow?_bin]
      by_cases hLeft :
          values.length + left.need ≤ Stack.capacity
      · have hPos := left.need_pos
        have hRight :=
          ihRight hWithin.2 (offset + left.code.length)
            (steps + left.size)
            (left.eval c.constants :: values)
            ((Token.binary operator).bytes ++ rest)
            (by simp only [List.length_cons]; omega)
            (by simp only [List.length_cons]; omega)
        rw [overflow?_eq_none hLeft, Option.none_or,
          exec_code hWithin.1 offset steps values _ hLeft]
        exact hRight
      · rcases ihLeft hWithin.1 offset steps values
            (right.code ++
              ((Token.binary operator).bytes ++ rest))
            hBound (by omega) with
          ⟨leaf, hLeaf, hExec⟩
        refine ⟨leaf, ?_, hExec⟩
        rw [Option.mem_def.mp hLeaf]
        rfl

end Expr

end Abacus

------------------------------------------------------------
-- Writing Code
------------------------------------------------------------

namespace Abacus

namespace Chunk

/- Add code bytes, each at its position. -/
def writeAll
    (c : Chunk)
    (bytes : List (UInt8 × Position)) : Chunk :=
  bytes.foldl
    (fun c (byte, position) => c.write byte position) c

/- Written bytes are appended to the code. -/
theorem code_writeAll
    (c : Chunk)
    (bytes : List (UInt8 × Position)) :
    (c.writeAll bytes).code.toList =
      c.code.toList ++ bytes.map Prod.fst := by
  induction bytes generalizing c with
  | nil => simp [writeAll]
  | cons byte bytes ih =>
      have hRest := ih (c.write byte.1 byte.2)
      simpa [writeAll, write] using hRest

/- Writing code keeps the pool. -/
theorem constants_writeAll
    (c : Chunk)
    (bytes : List (UInt8 × Position)) :
    (c.writeAll bytes).constants = c.constants := by
  induction bytes generalizing c with
  | nil => rfl
  | cons byte bytes ih => exact ih (c.write byte.1 byte.2)

end Chunk

end Abacus

------------------------------------------------------------
-- Interpretation
------------------------------------------------------------

namespace Abacus

namespace Expr

variable {c : Chunk}

/- The outcome of an expression's code, if it has room. -/
theorem outcome_of_room
    {e : Expr}
    (hCode :
      c.code.toList = e.code ++ [Opcode.ret.toByte])
    (hWithin : e.Within c.constants.size)
    (hRoom : e.need ≤ Stack.capacity) :
    c.outcome none =
      ⟨[e.eval c.constants], e.size + 1, none⟩ := by
  have hExec :=
    exec_code hWithin 0 0 [] [Opcode.ret.toByte]
      (by simpa using hRoom)
  rw [Chunk.outcome, hCode, hExec]
  have hRet :=
    Program.decode_token_append (0 + e.code.length)
      .ret []
  simp only [Token.bytes, List.append_nil] at hRet
  rw [hRet, Program.exec_cons_of_stop rfl rfl]
  simp

/- The outcome of an expression's code, if it has none. -/
theorem outcome_of_overflow
    {e : Expr}
    (hCode :
      c.code.toList = e.code ++ [Opcode.ret.toByte])
    (hWithin : e.Within c.constants.size)
    (hNeed : Stack.capacity < e.need) :
    ∃ leaf ∈ e.overflow? 0 0,
      ∃ final steps,
        final.length = Stack.capacity ∧
          c.outcome none =
            ⟨final, steps,
              some
                ⟨.stackOverflow Stack.capacity, leaf.offset,
                  c.position? leaf.offset⟩⟩ := by
  rw [Chunk.outcome, hCode]
  exact exec_code_overflow hWithin 0 0 [] _
    (Nat.zero_le _) (by simpa using hNeed)

end Expr

namespace Machine

variable {σ : Type}
variable [Sink σ]

/-
  Without a step limit, the code of an expression and a
  return leave exactly its value on the stack if the
  expression needs no more slots than there are. Otherwise
  the run overflows, at the first leaf that is reached with
  a full stack.
-/
theorem interpret_postorder
    (m : Machine)
    (hLimit : m.config.stepLimit = none)
    (c : Chunk)
    (hEmpty : c.code = #[])
    (e : Expr)
    (hWithin : e.Within c.constants.size)
    (bytes : List (UInt8 × Position))
    (hBytes :
      bytes.map Prod.fst = e.code ++ [Opcode.ret.toByte])
    (sink : σ) :
    ((m.interpret (c.writeAll bytes) sink).verdict = .ok ∧
        (m.interpret (c.writeAll bytes)
            sink).machine.stack.toList =
          [e.eval c.constants] ↔
      e.need ≤ Stack.capacity) ∧
    (Stack.capacity < e.need →
      (m.interpret (c.writeAll bytes) sink).verdict =
          .runtimeError ∧
        (m.interpret (c.writeAll bytes)
            sink).machine.stack.size =
          Stack.capacity ∧
        ∃ leaf,
          e.leaves.find?
              (fun leaf => leaf.depth = Stack.capacity) =
            some leaf ∧
          (m.interpret (c.writeAll bytes)
              sink).machine.fault =
            some
              ⟨.stackOverflow Stack.capacity, leaf.offset,
                (c.writeAll bytes).position?
                  leaf.offset⟩) := by
  have hCode :
      (c.writeAll bytes).code.toList =
        e.code ++ [Opcode.ret.toByte] := by
    rw [Chunk.code_writeAll, hEmpty, hBytes]
    rfl
  have hPool := c.constants_writeAll bytes
  have hInPool :
      e.Within (c.writeAll bytes).constants.size := by
    rw [hPool]
    exact hWithin
  have hOutcome :=
    interpret_outcome m (c.writeAll bytes) sink
  have hVerdict :=
    interpret_verdict m (c.writeAll bytes) sink
  rw [hLimit] at hOutcome
  rw [hOutcome] at hVerdict
  by_cases hRoom : e.need ≤ Stack.capacity
  · rw [Expr.outcome_of_room hCode hInPool hRoom, hPool]
      at hOutcome hVerdict
    have hValues := congrArg Outcome.values hOutcome
    refine ⟨⟨fun _ => hRoom, fun _ => ⟨hVerdict, ?_⟩⟩, ?_⟩
    · rw [← Stack.reverse_values]
      exact congrArg List.reverse hValues
    · intro hNeed
      omega
  · rcases Expr.outcome_of_overflow hCode hInPool
        (Nat.lt_of_not_le hRoom) with
      ⟨leaf, hLeaf, final, steps, hFull, hExec⟩
    rw [hExec] at hOutcome hVerdict
    have hValues := congrArg Outcome.values hOutcome
    refine ⟨⟨?_, fun hNo => absurd hNo hRoom⟩, ?_⟩
    · rintro ⟨hOk, _⟩
      rw [hVerdict] at hOk
      cases hOk
    · intro _
      refine ⟨hVerdict, ?_, leaf, hLeaf,
        congrArg Outcome.fault hOutcome⟩
      rw [← Stack.length_values]
      exact (congrArg List.length hValues).trans hFull

/-
  Seven minus one, divided by the opposite of four. A sum of
  257 terms that is nested to the right needs one slot too
  many; its last leaf is at offset 512.
-/
theorem interpret_postorder_nested :
    ((Machine.new {}).interpret
          (Chunk.writeAll { constants := #[7, 1, 4] }
            (((Expr.bin .divide
                  (.bin .subtract (.leaf 0) (.leaf 1))
                  (.neg (.leaf 2))).code ++
                [Opcode.ret.toByte]).map
              fun byte => (byte, ⟨3, 7⟩)))
          ({} : ByteSink)).machine.stack.toList =
        [Number.ofFloat (-1.5)] ∧
      Stack.capacity < (Expr.nested 256).need ∧
      ∃ position,
        ((Machine.new {}).interpret
            (Chunk.writeAll { constants := #[1] }
              (((Expr.nested 256).code ++
                  [Opcode.ret.toByte]).map
                fun byte => (byte, ⟨3, 7⟩)))
            ({} : ByteSink)).machine.fault =
          some ⟨.stackOverflow 256, 512, position⟩ := by
  have hRoom :=
    (interpret_postorder (Machine.new {}) rfl
      { constants := #[7, 1, 4] } rfl
      (.bin .divide (.bin .subtract (.leaf 0) (.leaf 1))
        (.neg (.leaf 2)))
      (by decide)
      (((Expr.bin .divide
            (.bin .subtract (.leaf 0) (.leaf 1))
            (.neg (.leaf 2))).code ++
          [Opcode.ret.toByte]).map
        fun byte => (byte, ⟨3, 7⟩))
      (by simp [Function.comp_def])
      ({} : ByteSink)).1.mpr (by decide)
  have hValue :
      (Expr.bin .divide (.bin .subtract (.leaf 0) (.leaf 1))
          (.neg (.leaf 2))).eval #[7, 1, 4] =
        Number.ofFloat (-1.5) := by
    decide +kernel
  have hNeed :
      Stack.capacity < (Expr.nested 256).need := by
    decide +kernel
  rcases
    (interpret_postorder (Machine.new {}) rfl
      { constants := #[1] } rfl (Expr.nested 256)
      (by decide +kernel)
      (((Expr.nested 256).code ++
          [Opcode.ret.toByte]).map
        fun byte => (byte, ⟨3, 7⟩))
      (by simp [Function.comp_def])
      ({} : ByteSink)).2 hNeed with
    ⟨_, _, leaf, hLeaf, hFault⟩
  have hLast :
      (Expr.nested 256).leaves.find?
          (fun leaf => leaf.depth = Stack.capacity) =
        some ⟨512, 256⟩ := by
    decide +kernel
  have hSame := Option.some.inj (hLeaf.symm.trans hLast)
  rw [hSame] at hFault
  rw [hValue] at hRoom
  exact ⟨hRoom.2, hNeed, _, hFault⟩

end Machine

end Abacus
